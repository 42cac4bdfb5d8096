import Dsnet.NIStore.LockServer
import Dsnet.NIStore.OCCStore

/-! `nistore/kvstore.{h,cc}` and `nistore/lockstore.{h,cc}`: a store that keeps the values each key has had,
    and transactions over it under strict two-phase locking.

    A read takes the key's lock for reading, a write takes it for writing, and they are released when the
    transaction commits or aborts. An operation that does not get its lock returns -2. A failed
    `ASSERT`, `NOT_REACHABLE` and the back of an empty list give `none`. -/

namespace Dsnet.NIStore

/-- `KVStore`: the values each key has had, the newest last. -/
structure KVStore where
  store : StdMap String (List String)
  deriving DecidableEq

namespace KVStore

/-- `get`. -/
def get (s : KVStore) (key : String) : Option String := (s.store.find? key).bind List.getLast?

/-- `put`. -/
def put (s : KVStore) (key value : String) : KVStore :=
  { store := s.store.insert key ((s.store.find? key).getD [] ++ [value]) }

/-- `remove`: takes the newest value of the key away, if there is one. The value that it is to return is
    left as the caller has it. -/
def remove (s : KVStore) (key : String) : Option KVStore :=
  match s.store.find? key with
  | none => none
  | some values => if values = [] then none else some { store := s.store.insert key values.dropLast }

end KVStore

namespace Locking

/-- `LockStore::Transaction`: how many times each key has been read, and the values written to each. -/
structure Transaction where
  id : Nat
  readSet : StdMap String Nat
  writeSet : StdMap String (List String)
  deriving DecidableEq

/-- `Transaction(id)`. -/
def Transaction.new (id : Nat) : Transaction :=
  { id := id, readSet := StdMap.empty, writeSet := StdMap.empty }

/-- `RetiredTxn`. -/
structure RetiredTxn where
  txn : Transaction
  state : RetiredState
  deriving DecidableEq

end Locking

open Locking

/-- `LockStore`. -/
structure LockStore where
  store : KVStore
  locks : LockServer
  running : StdMap Nat Transaction
  prepared : StdMap Nat Transaction
  retired : List (Nat × RetiredTxn)

namespace LockStore

/-- `LockStore()`, and the readings of the clock to come. -/
def new (clock : Clock) : LockStore :=
  { store := { store := StdMap.empty }, locks := LockServer.new clock, running := StdMap.empty,
    prepared := StdMap.empty, retired := [] }

/-- `running[id] = txn`. -/
def setRunning (s : LockStore) (id : Nat) (txn : Transaction) : LockStore :=
  { s with running := s.running.insert id txn }

/-- `getTxn`: the running transaction, which is created when there is none. -/
def getTxn (s : LockStore) (id : Nat) : Option (Transaction × LockStore) :=
  match s.running.find? id with
  | none => some (Transaction.new id, s.setRunning id (Transaction.new id))
  | some txn => if txn.id = id then some (txn, s) else none

/-- `getRetiredTxn`. -/
def getRetiredTxn (s : LockStore) (op id : Nat) (state : RetiredState) :
    Option (Transaction × LockStore) :=
  match s.retired.getLast? with
  | none => none
  | some t =>
    if t.1 = op ∧ t.2.txn.id = id ∧ t.2.state = state then
      some (t.2.txn, { s with retired := s.retired.dropLast })
    else none

/-- The first loop of `dropLocks`. -/
def releaseWrites (id : Nat) (locks : LockServer) (keys : List String) : Option LockServer :=
  keys.foldlM (fun locks key => locks.releaseForWrite key id) locks

/-- The second loop of `dropLocks`. -/
def releaseReads (id : Nat) (locks : LockServer) (keys : List String) : LockServer :=
  keys.foldl (fun locks key => locks.releaseForRead key id) locks

/-- `dropLocks`. -/
def dropLocks (s : LockStore) (txn : Transaction) : Option LockStore :=
  (releaseWrites txn.id s.locks (txn.writeSet.toList.map Prod.fst)).map fun locks =>
    { s with locks := releaseReads txn.id locks (txn.readSet.toList.map Prod.fst) }

/-- A loop of `getLocks`, which asserts that it gets every lock. -/
def takeAll (take : LockServer → String → Option (Bool × LockServer)) (locks : LockServer)
    (keys : List String) : Option LockServer :=
  keys.foldlM (fun locks key => (take locks key).bind fun (ok, locks) =>
    if ok then some locks else none) locks

/-- `getLocks`. -/
def getLocks (s : LockStore) (txn : Transaction) : Option LockStore :=
  (takeAll (·.lockForWrite · txn.id) s.locks (txn.writeSet.toList.map Prod.fst)).bind fun locks =>
    (takeAll (·.lockForRead · txn.id) locks (txn.readSet.toList.map Prod.fst)).map fun locks =>
      { s with locks := locks }

/-- `begin`. -/
def begin (s : LockStore) (id : Nat) : LockStore := s.setRunning id (Transaction.new id)

/-- `unbegin`. -/
def unbegin (s : LockStore) (id : Nat) : LockStore := { s with running := s.running.erase id }

/-- `get`: the status and the value, which is left empty when there is none. -/
def get (s : LockStore) (id : Nat) (key : String) : Option ((Int × String) × LockStore) :=
  (s.getTxn id).bind fun (txn, s) =>
    match txn.writeSet.find? key with
    | some values => values.getLast?.map fun value => ((0, value), s)
    | none =>
      match s.store.get key with
      | none => some ((-1, ""), s)
      | some value =>
        match txn.readSet.find? key with
        | some count =>
          some ((0, value), s.setRunning id { txn with readSet := txn.readSet.insert key (count + 1) })
        | none =>
          (s.locks.lockForRead key id).map fun (ok, locks) =>
            if ok then
              ((0, value), { s with locks := locks }.setRunning id
                { txn with readSet := txn.readSet.insert key 1 })
            else ((-2, value), { s with locks := locks })

/-- `unget`. -/
def unget (s : LockStore) (id : Nat) (key : String) : Option LockStore :=
  match s.running.find? id with
  | none => none
  | some txn =>
    match txn.readSet.find? key with
    | none => some s
    | some count =>
      if count > 1 then
        some (s.setRunning id { txn with readSet := txn.readSet.insert key (count - 1) })
      else
        some ({ s with locks := s.locks.releaseForRead key id }.setRunning id
          { txn with readSet := txn.readSet.erase key })

/-- `put`. -/
def put (s : LockStore) (id : Nat) (key value : String) : Option (Int × LockStore) :=
  (s.getTxn id).bind fun (txn, s) =>
    (s.locks.lockForWrite key id).map fun (ok, locks) =>
      if ok then
        (0, { s with locks := locks }.setRunning id
          { txn with writeSet := txn.writeSet.insert key ((txn.writeSet.find? key).getD [] ++ [value]) })
      else (-2, { s with locks := locks })

/-- `unput`. -/
def unput (s : LockStore) (id : Nat) (key value : String) : Option LockStore :=
  match s.running.find? id with
  | none => none
  | some txn =>
    match txn.writeSet.find? key with
    | none => none
    | some writes =>
      if writes.getLast? = some value then
        (if writes.dropLast = [] then s.locks.releaseForWrite key id else some s.locks).map fun locks =>
          { s with locks := locks }.setRunning id
            { txn with writeSet := txn.writeSet.insert key writes.dropLast }
      else none

/-- `prepare`. -/
def prepare (s : LockStore) (id _op : Nat) : Int × LockStore :=
  match s.running.find? id with
  | none => (-1, s)
  | some txn =>
    (0, { s with running := s.running.erase id, prepared := s.prepared.insert id txn })

/-- `unprepare`. -/
def unprepare (s : LockStore) (id op : Nat) : Option LockStore :=
  match s.prepared.find? id with
  | some txn => some { s.setRunning id txn with prepared := s.prepared.erase id }
  | none => (s.getRetiredTxn op id .abortedRunning).map fun (txn, s) => s.setRunning id txn

/-- The loop of `commit`. -/
def putAll (store : KVStore) (writes : List (String × List String)) : Option KVStore :=
  writes.foldlM (fun store write => write.2.getLast?.map fun value => store.put write.1 value) store

/-- `commit`. -/
def commit (s : LockStore) (id _timestamp op : Nat) : Option LockStore :=
  match s.prepared.find? id with
  | none => none
  | some txn =>
    if txn.id = id then
      (putAll s.store txn.writeSet.toList).bind fun store =>
        (dropLocks { s with store := store } txn).map fun s =>
          { s with prepared := s.prepared.erase id
                   retired := s.retired ++ [(op, ⟨txn, .committed⟩)] }
    else none

/-- The loop of `uncommit`; the value compared with the one written is never assigned. -/
def removeAll (store : KVStore) (writes : List (String × List String)) : Option KVStore :=
  writes.foldlM (fun store write => (store.remove write.1).bind fun store =>
    if write.2.getLast? = some "" then some store else none) store

/-- `uncommit`. -/
def uncommit (s : LockStore) (id _timestamp op : Nat) : Option LockStore :=
  (s.getRetiredTxn op id .committed).bind fun (txn, s) =>
    (removeAll s.store txn.writeSet.toList).bind fun store =>
      (getLocks { s with store := store } txn).bind fun s =>
        if (s.prepared.find? id).isSome then none
        else some { s with prepared := s.prepared.insert id txn }

/-- `abortTxn`. -/
def abortTxn (s : LockStore) (id op : Nat) : Option LockStore :=
  match s.running.find? id with
  | some txn =>
    (s.dropLocks txn).map fun s =>
      { s with retired := s.retired ++ [(op, ⟨txn, .abortedRunning⟩)]
               running := s.running.erase id }
  | none =>
    match s.prepared.find? id with
    | some txn =>
      (s.dropLocks txn).map fun s =>
        { s with retired := s.retired ++ [(op, ⟨txn, .abortedPrepared⟩)]
                 prepared := s.prepared.erase id }
    | none => none

/-- The part of `unabort` that puts the transaction back. -/
def restore (s : LockStore) (id : Nat) (rTxn : RetiredTxn) : Option LockStore :=
  match rTxn.state with
  | .committed => none
  | .abortedPrepared =>
    if (s.prepared.find? id).isSome then none
    else some { s with prepared := s.prepared.insert id rTxn.txn }
  | .abortedRunning =>
    if (s.running.find? id).isSome then none else some (s.setRunning id rTxn.txn)

/-- `unabort`. -/
def unabort (s : LockStore) (id op : Nat) : Option LockStore :=
  match s.retired.getLast? with
  | none => none
  | some t =>
    if t.1 = op ∧ t.2.txn.id = id then
      (s.restore id t.2).bind fun s => (s.getLocks t.2.txn).map fun s =>
        { s with retired := s.retired.dropLast }
    else none

/-- `specCommit`. -/
def specCommit (s : LockStore) (op : Nat) : LockStore :=
  { s with retired := s.retired.dropWhile (·.1 ≤ op) }

/-- The store behind the interface. -/
def txnStore : TxnStore LockStore :=
  { begin, get, put, prepare := fun s id op => some (s.prepare id op), commit, abortTxn, unbegin, unget,
    unput, unprepare, uncommit, unabort, specCommit }

end LockStore
end Dsnet.NIStore
