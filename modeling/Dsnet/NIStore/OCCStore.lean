import Mathlib.Data.String.Basic
import Dsnet.NIStore.TxnStore
import Dsnet.Lib.StdMap
import Dsnet.Lib.StdSet

/-! `nistore/versionedKVStore.{h,cc}` and `nistore/occstore.{h,cc}`: a versioned store, and transactions
    over it that are validated when they prepare.

    A transaction keeps the timestamps of the versions it has read and the values it has written. When it
    prepares it must have read latest versions only, and must not conflict with a prepared
    transaction. Each operation has an inverse, with which SpecPaxos takes speculative operations back.

    A failed `ASSERT`, `NOT_REACHABLE` and the front or back of an empty list give `none`. Reading a map
    with `[]` only where the key is bound is a lookup. -/

namespace Dsnet.NIStore

/-- `VersionedKVStore`: the versions of a key with their timestamps, newest first. -/
structure VersionedKVStore where
  store : StdMap String (List (Nat × String))
  deriving DecidableEq

namespace VersionedKVStore

/-- `get(key, value)`: the most recent version, if the key exists. -/
def get (s : VersionedKVStore) (key : String) : Option (Option (Nat × String)) :=
  match s.store.find? key with
  | none => some none
  | some [] => none
  | some (version :: _) => some (some version)

/-- `get(key, timestamp, value)`: the value valid at the timestamp, if the key existed then. -/
def getAt (s : VersionedKVStore) (key : String) (timestamp : Nat) : Option String :=
  (s.store.find? key).bind fun versions => (versions.find? (·.1 ≤ timestamp)).map Prod.snd

/-- The loop of `put` that inserts an older version. -/
def insertOlder (version : Nat × String) : List (Nat × String) → List (Nat × String)
  | [] => []
  | x :: xs => if version.1 > x.1 then version :: x :: xs else x :: insertOlder version xs

/-- `put`. -/
def put (s : VersionedKVStore) (key value : String) (timestamp : Nat) : Option VersionedKVStore :=
  match s.store.find? key with
  | none => some { store := s.store.insert key [(timestamp, value)] }
  | some [] => none
  | some (x :: xs) =>
    if timestamp > x.1 then some { store := s.store.insert key ((timestamp, value) :: x :: xs) }
    else some { store := s.store.insert key (insertOlder (timestamp, value) (x :: xs)) }

/-- `remove`: takes the latest version of the key away, if the key exists. -/
def remove (s : VersionedKVStore) (key : String) :
    Option (Option ((Nat × String) × VersionedKVStore)) :=
  match s.store.find? key with
  | none => some none
  | some [] => none
  | some (version :: rest) => some (some (version, { store := s.store.insert key rest }))

end VersionedKVStore

/-- `RetiredState`. -/
inductive RetiredState where
  | committed | abortedPrepared | abortedRunning
  deriving DecidableEq, Repr

namespace OCC

/-- `OCCStore::Transaction`: for each key read the timestamp of the version and how many times it has been
    read, and for each key written the values. -/
structure Transaction where
  id : Nat
  readSet : StdMap String (Nat × Nat)
  writeSet : StdMap String (List String)
  deriving DecidableEq

/-- `Transaction(id)`. -/
def Transaction.new (id : Nat) : Transaction :=
  { id := id, readSet := StdMap.empty, writeSet := StdMap.empty }

/-- `RetiredTxn`. -/
structure RetiredTxn where
  txn : Transaction
  state : RetiredState
  deriving DecidableEq

end OCC

open OCC

/-- `OCCStore`. -/
structure OCCStore where
  store : VersionedKVStore
  running : StdMap Nat Transaction
  prepared : StdMap Nat Transaction
  retired : List (Nat × RetiredTxn)
  deriving DecidableEq

namespace OCCStore

/-- `OCCStore()`. -/
def new : OCCStore :=
  { store := { store := StdMap.empty }, running := StdMap.empty, prepared := StdMap.empty, retired := [] }

/-- `running[id] = txn`. -/
def setRunning (s : OCCStore) (id : Nat) (txn : Transaction) : OCCStore :=
  { s with running := s.running.insert id txn }

/-- `getPreparedWrites`. -/
def getPreparedWrites (s : OCCStore) : StdSet String :=
  (s.prepared.toList.flatMap fun t => t.2.writeSet.toList.map Prod.fst).foldl StdSet.insert StdSet.empty

/-- `getPreparedReadWrites`. -/
def getPreparedReadWrites (s : OCCStore) : StdSet String :=
  (s.prepared.toList.flatMap fun t =>
    t.2.writeSet.toList.map Prod.fst ++ t.2.readSet.toList.map Prod.fst).foldl StdSet.insert StdSet.empty

/-- `getTxn`: the running transaction, which is created when there is none. -/
def getTxn (s : OCCStore) (id : Nat) : Option (Transaction × OCCStore) :=
  match s.running.find? id with
  | none => some (Transaction.new id, s.setRunning id (Transaction.new id))
  | some txn => if txn.id = id then some (txn, s) else none

/-- `getRetiredTxn`. -/
def getRetiredTxn (s : OCCStore) (op id : Nat) (state : RetiredState) :
    Option (Transaction × OCCStore) :=
  match s.retired.getLast? with
  | none => none
  | some t =>
    if t.1 = op ∧ t.2.txn.id = id ∧ t.2.state = state then
      some (t.2.txn, { s with retired := s.retired.dropLast })
    else none

/-- `begin`. -/
def begin (s : OCCStore) (id : Nat) : OCCStore := s.setRunning id (Transaction.new id)

/-- `unbegin`. -/
def unbegin (s : OCCStore) (id : Nat) : OCCStore := { s with running := s.running.erase id }

/-- `get`: the status and the value, which is left empty when there is none. -/
def get (s : OCCStore) (id : Nat) (key : String) : Option ((Int × String) × OCCStore) :=
  (s.getTxn id).bind fun (txn, s) =>
    match txn.writeSet.find? key with
    | some values => values.getLast?.map fun value => ((0, value), s)
    | none =>
      match txn.readSet.find? key with
      | some (timestamp, count) =>
        (s.store.getAt key timestamp).map fun val =>
          ((0, val), s.setRunning id
            { txn with readSet := txn.readSet.insert key (timestamp, count + 1) })
      | none =>
        (s.store.get key).map fun
          | some (timestamp, val) =>
            ((0, val), s.setRunning id { txn with readSet := txn.readSet.insert key (timestamp, 1) })
          | none => ((-1, ""), s)

/-- `unget`. -/
def unget (s : OCCStore) (id : Nat) (key : String) : Option OCCStore :=
  (s.getTxn id).map fun (txn, s) =>
    match txn.readSet.find? key with
    | some (timestamp, count) =>
      if count > 1 then
        s.setRunning id { txn with readSet := txn.readSet.insert key (timestamp, count - 1) }
      else s.setRunning id { txn with readSet := txn.readSet.erase key }
    | none => s

/-- `put`. -/
def put (s : OCCStore) (id : Nat) (key value : String) : Option (Int × OCCStore) :=
  (s.getTxn id).map fun (txn, s) =>
    (0, s.setRunning id
      { txn with writeSet := txn.writeSet.insert key ((txn.writeSet.find? key).getD [] ++ [value]) })

/-- `unput`. -/
def unput (s : OCCStore) (id : Nat) (key value : String) : Option OCCStore :=
  (s.getTxn id).bind fun (txn, s) =>
    match txn.writeSet.find? key with
    | none => none
    | some values =>
      if values.getLast? = some value then
        some (s.setRunning id { txn with writeSet := txn.writeSet.insert key values.dropLast })
      else none

/-- `abortTxn`. -/
def abortTxn (s : OCCStore) (id op : Nat) : Option OCCStore :=
  match s.running.find? id with
  | some txn =>
    some { s with retired := s.retired ++ [(op, ⟨txn, .abortedRunning⟩)]
                  running := s.running.erase id }
  | none =>
    match s.prepared.find? id with
    | some txn =>
      some { s with retired := s.retired ++ [(op, ⟨txn, .abortedPrepared⟩)]
                    prepared := s.prepared.erase id }
    | none => none

/-- `unabort`. -/
def unabort (s : OCCStore) (id op : Nat) : Option OCCStore :=
  match s.retired.getLast? with
  | none => none
  | some (op', rTxn) =>
    if op' = op ∧ rTxn.txn.id = id then
      match rTxn.state with
      | .committed => none
      | .abortedPrepared =>
        if (s.prepared.find? id).isSome then none
        else some { s with prepared := s.prepared.insert id rTxn.txn, retired := s.retired.dropLast }
      | .abortedRunning =>
        if (s.running.find? id).isSome then none
        else some { s.setRunning id rTxn.txn with retired := s.retired.dropLast }
    else none

/-- The first loop of `prepare`: is what has been read the latest, and not about to be written? -/
def readsValid (s : OCCStore) : List (String × Nat × Nat) → Option Bool
  | [] => some true
  | (key, timestamp, _) :: rest =>
    match s.store.get key with
    | none | some none => none
    | some (some cur) =>
      if cur.1 ≠ timestamp then some false
      else if key ∈ s.getPreparedWrites.toList then some false
      else readsValid s rest

/-- The second loop of `prepare`: is what has been written neither read nor written by another? -/
def writesValid (s : OCCStore) (writes : List (String × List String)) : Bool :=
  writes.all fun write => write.1 ∉ s.getPreparedReadWrites.toList

/-- `prepare`. -/
def prepare (s : OCCStore) (id op : Nat) : Option (Int × OCCStore) :=
  match s.running.find? id with
  | none => some (-1, s)
  | some txn =>
    (s.readsValid txn.readSet.toList).bind fun valid =>
      if valid && s.writesValid txn.writeSet.toList then
        some (0, { s with running := s.running.erase id, prepared := s.prepared.insert id txn })
      else (s.abortTxn id op).map fun s => (-1, s)

/-- `unprepare`. -/
def unprepare (s : OCCStore) (id op : Nat) : Option OCCStore :=
  match s.prepared.find? id with
  | some txn => some { s.setRunning id txn with prepared := s.prepared.erase id }
  | none => (s.getRetiredTxn op id .abortedRunning).map fun (txn, s) => s.setRunning id txn

/-- The loop of `commit`. -/
def putAll (timestamp : Nat) (store : VersionedKVStore) (writes : List (String × List String)) :
    Option VersionedKVStore :=
  writes.foldlM (fun store write =>
    write.2.getLast?.bind fun value => store.put write.1 value timestamp) store

/-- `commit`. -/
def commit (s : OCCStore) (id timestamp op : Nat) : Option OCCStore :=
  match s.prepared.find? id with
  | none => none
  | some txn =>
    if txn.id = id then
      (putAll timestamp s.store txn.writeSet.toList).map fun store =>
        { s with store := store
                 prepared := s.prepared.erase id
                 retired := s.retired ++ [(op, ⟨txn, .committed⟩)] }
    else none

/-- The loop of `uncommit`. -/
def removeAll (timestamp : Nat) (store : VersionedKVStore) (writes : List (String × List String)) :
    Option VersionedKVStore :=
  writes.foldlM (fun store write =>
    match store.remove write.1 with
    | none | some none => none
    | some (some (val, store)) =>
      if val.1 = timestamp ∧ write.2.getLast? = some val.2 then some store else none) store

/-- `uncommit`. -/
def uncommit (s : OCCStore) (id timestamp op : Nat) : Option OCCStore :=
  (s.getRetiredTxn op id .committed).bind fun (txn, s) =>
    (removeAll timestamp s.store txn.writeSet.toList).bind fun store =>
      if (s.prepared.find? id).isSome then none
      else some { s with store := store, prepared := s.prepared.insert id txn }

/-- `specCommit`. -/
def specCommit (s : OCCStore) (op : Nat) : OCCStore :=
  { s with retired := s.retired.dropWhile (·.1 ≤ op) }

/-- The store behind the interface. -/
def txnStore : TxnStore OCCStore :=
  { begin, get, put, prepare, commit, abortTxn, unbegin, unget, unput, unprepare, uncommit, unabort,
    specCommit }

end OCCStore
end Dsnet.NIStore
