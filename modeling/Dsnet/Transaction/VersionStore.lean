import Mathlib.Data.Prod.Lex
import Mathlib.Data.String.Basic
import Dsnet.Lib.StdMap

/-! `transaction/common/backend/versionstore.{h,cc}`: a store that keeps each version of a key with the
    timestamp of its write, and for versions the timestamp of their latest read.

    `VersionedValue`s are compared by their timestamps alone, so a `std::set` of them is a map from these to
    the values. An iterator is what is left of the set from there. A failed `ASSERT` gives `none`. -/

namespace Dsnet.Transaction

/-- `Timestamp`. -/
structure Timestamp where
  timestamp : Nat
  id : Nat
  deriving DecidableEq, Repr

/-- Timestamps are compared by `timestamp`, and then by `id`. -/
instance : LinearOrder Timestamp :=
  LinearOrder.lift' (fun t => toLex (t.timestamp, t.id)) fun t t' h => by
    obtain ⟨h₁, h₂⟩ := Prod.mk.inj (toLex.injective h)
    cases t
    cases t'
    cases h₁
    cases h₂
    rfl

/-- `VersionedKVStore`. -/
structure VersionedKVStore where
  store : StdMap String (StdMap Timestamp String)
  lastReads : StdMap String (StdMap Timestamp Timestamp)
  deriving DecidableEq

namespace VersionedKVStore

/-- `VersionedKVStore()`. -/
def new : VersionedKVStore := { store := StdMap.empty, lastReads := StdMap.empty }

/-- `store[key]`. -/
def versions (s : VersionedKVStore) (key : String) : StdMap Timestamp String :=
  (s.store.find? key).getD StdMap.empty

/-- `inStore`. -/
def inStore (s : VersionedKVStore) (key : String) : Bool :=
  (s.store.find? key).any fun versions => decide (versions.size > 0)

/-- `getValue`: `upper_bound`, and a step back unless that is the beginning. -/
def getValue (s : VersionedKVStore) (key : String) (t : Timestamp) : List (Timestamp × String) :=
  let all := (s.versions key).toList
  let it := all.dropWhile (·.1 ≤ t)
  if it.length = all.length then [] else all.drop (all.length - it.length - 1)

/-- `get(key, value)`. -/
def get (s : VersionedKVStore) (key : String) : Option (Timestamp × String) :=
  if s.inStore key then (s.versions key).toList.getLast? else none

/-- `get(key, t, value)`. -/
def getAt (s : VersionedKVStore) (key : String) (t : Timestamp) : Option (Timestamp × String) :=
  if s.inStore key then (s.getValue key t).head? else none

/-- `getRange`: the start of the range, and its end if that is set. -/
def getRange (s : VersionedKVStore) (key : String) (t : Timestamp) :
    Option (Timestamp × Option Timestamp) :=
  if s.inStore key then
    match s.getValue key t with
    | [] => none
    | it :: next => some (it.1, next.head?.map Prod.fst)
  else none

/-- `put`. -/
def put (s : VersionedKVStore) (key value : String) (t : Timestamp) : VersionedKVStore :=
  { s with store := s.store.insert key ((s.versions key).emplace t value) }

/-- `lastReads[key][write]`, if there is one. -/
def lastRead (s : VersionedKVStore) (key : String) (write : Timestamp) : Option Timestamp :=
  (s.lastReads.find? key).bind (·.find? write)

/-- `lastReads[key][write] = commit`. -/
def setLastRead (s : VersionedKVStore) (key : String) (write commit : Timestamp) : VersionedKVStore :=
  { s with lastReads :=
      s.lastReads.insert key (((s.lastReads.find? key).getD StdMap.empty).insert write commit) }

/-- `commitGet`. -/
def commitGet (s : VersionedKVStore) (key : String) (readTime commit : Timestamp) : VersionedKVStore :=
  if s.inStore key then
    match s.getValue key readTime with
    | [] => s
    | it :: _ =>
      -- a version that nobody has read before is passed over
      match s.lastRead key it.1 with
      | some last => if last < commit then s.setLastRead key it.1 commit else s
      | none => s
  else s

/-- `getLastRead(key, t, lastRead)`. -/
def getLastReadAt (s : VersionedKVStore) (key : String) (t : Timestamp) : Option (Option Timestamp) :=
  if s.inStore key then
    match s.getValue key t with
    | [] => none
    | it :: _ => some (s.lastRead key it.1)
  else some none

end VersionedKVStore
end Dsnet.Transaction
