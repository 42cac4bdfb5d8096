import Mathlib.Data.Prod.Lex
import Dsnet.Transaction.LockServer
import Dsnet.Transaction.TxnServer

/-! `transaction/apps/kvstore/txnserver.{h,cc}` with `transaction/common/backend/kvstore.{h,cc}`: the key
    value store, whose transactions lock what they read and write. A PREPARE takes the locks and reads;
    the COMMIT or ABORT that follows it writes, or does not, and releases the locks.

    The sets of keys are `unordered_set`s in the source, which leaves open in which order they are gone
    through; here they are in increasing order. A failed `ASSERT` stops the process. -/

namespace Dsnet.Transaction
open Handler

/-- `KVTxnMessage`: the keys to get, and the keys to put with their values. -/
structure KVTxnMessage where
  gets : List String
  puts : List (String × String)
  deriving DecidableEq

/-- `KVTxnReplyMessage`; its status is always `SUCCESS` (`KVStore::get` always succeeds). -/
structure KVTxnReplyMessage where
  rgets : List (String × String)
  deriving DecidableEq

/-- `kvtxn_t`. -/
structure KVTxn where
  txnarg : TxnArg
  readSet : StdSet String
  writeSet : StdSet (String ×ₗ String)
  blockedKeys : StdSet String

/-- The arguments of the constructor, and the serialization of the messages. -/
structure KVEnv where
  retryLock : Bool
  message : Codec KVTxnMessage
  reply : Codec KVTxnReplyMessage

/-- One serialization of the messages. -/
def KVEnv.plain (retryLock : Bool) : KVEnv where
  retryLock := retryLock
  message := ((Encoding.string.list.prod (Encoding.string.prod Encoding.string).list).map
    (fun m : KVTxnMessage => (m.gets, m.puts)) (fun x => ⟨x.1, x.2⟩) fun _ => rfl).codec
  reply := ((Encoding.string.prod Encoding.string).list.map
    KVTxnReplyMessage.rgets KVTxnReplyMessage.mk fun _ => rfl).codec

/-- The members of `KVTxnServer`; `store` is the map of its `KVStore`. -/
structure KVTxnServer where
  store : String → Option String
  lockServer : LockServer
  mode : ServerMode
  pendingTxns : StdMap Nat KVTxn

abbrev KVHandler := Handler KVTxnServer Empty

/-- `kvtxn_t()`. -/
def KVTxn.new (arg : TxnArg) : KVTxn :=
  { txnarg := arg, readSet := StdSet.empty, writeSet := StdSet.empty, blockedKeys := StdSet.empty }

/-- The transaction with the keys of a message. -/
def KVTxn.include (t : KVTxn) (m : KVTxnMessage) : KVTxn :=
  { t with
    readSet := m.gets.foldl StdSet.insert t.readSet
    writeSet := m.puts.foldl (fun set kv => set.insert (toLex kv)) t.writeSet }

/-- `KVStore::put` of each write, in the order of the set. -/
def putAll (store : String → Option String) (writes : List (String ×ₗ String)) : String → Option String :=
  writes.foldl (fun store kv => Function.update store (ofLex kv).1 (some (ofLex kv).2)) store

variable (E : KVEnv)

/-- The locks of `keys`: which transaction asks for them, with what is blocked so far. -/
def acquireLocks (lock : LockServer → String → Nat → Option (Bool × LockServer)) :
    List String → KVTxn → Bool → KVHandler (KVTxn × Bool)
  | [], t, blocked => pure (t, blocked)
  | key :: keys, t, blocked => do
    let s ← get
    let (ok, ls) ← ofOption (lock s.lockServer key t.txnarg.txnid)
    modify fun s => { s with lockServer := ls }
    if ok then
      acquireLocks lock keys t blocked
    else
      let t := if E.retryLock then t else { t with blockedKeys := t.blockedKeys.insert key }
      acquireLocks lock keys t true

/-- `ReleaseLocks`, for a transaction that gets a lock another one has released. -/
def unblock (key : String) : List Nat → StdSet Nat → KVHandler (StdSet Nat)
  | [], unblocked => pure unblocked
  | holder :: holders, unblocked => do
    let s ← get
    let t ← ofOption (s.pendingTxns.find? holder)
    assert (key ∈ t.blockedKeys.toList)
    let t := { t with blockedKeys := t.blockedKeys.erase key }
    modify fun s => { s with pendingTxns := s.pendingTxns.insert holder t }
    unblock key holders (if t.blockedKeys.size = 0 then unblocked.insert holder else unblocked)

/-- `ReleaseLocks`, for `keys` that are locked in one of the two ways. -/
def releaseKeys (release : LockServer → String → Nat → Option (LockServer × StdSet Nat)) (txnid : Nat) :
    List String → StdSet Nat → KVHandler (StdSet Nat)
  | [], unblocked => pure unblocked
  | key :: keys, unblocked => do
    let s ← get
    let (ls, newholders) ← ofOption (release s.lockServer key txnid)
    modify fun s => { s with lockServer := ls }
    assert (E.retryLock = true → newholders.size = 0)
    let unblocked ← unblock key newholders.toList unblocked
    releaseKeys release txnid keys unblocked

/-- `ReleaseLocks`, and which transactions that unblocks. -/
def releaseLocks (t : KVTxn) : KVHandler (StdSet Nat) := do
  let unblocked ← releaseKeys E LockServer.releaseForRead t.txnarg.txnid t.readSet.toList StdSet.empty
  releaseKeys E LockServer.releaseForWrite t.txnarg.txnid (t.writeSet.toList.map fun kv => (ofLex kv).1)
    unblocked

/-- `CleanupTxn`. -/
def cleanupTxn (t : KVTxn) : KVHandler (StdSet Nat) := do
  let unblocked ← releaseLocks E t
  assert (t.blockedKeys.size = 0)
  modify fun s => { s with pendingTxns := s.pendingTxns.erase t.txnarg.txnid }
  pure unblocked

/-- What a transaction of this type reads. -/
def readAll (s : KVTxnServer) (t : KVTxn) : List (String × String) :=
  if t.txnarg.type = .prepare ∨ t.txnarg.type = .indep then
    t.readSet.toList.map fun key => (key, (s.store key).getD "")
  else []

/-- `ExecuteTransaction`: the serialized reply, and which transactions are unblocked. -/
def executeTransaction (t : KVTxn) : KVHandler (String × StdSet Nat) := do
  assert (t.blockedKeys.size = 0)
  let s ← get
  let reply := E.reply.serialize { rgets := readAll s t }
  when (t.txnarg.type = .indep ∨ t.txnarg.type = .commit) <|
    modify fun s => { s with store := putAll s.store t.writeSet.toList }
  if t.txnarg.type ≠ .prepare ∧ (s.pendingTxns.find? t.txnarg.txnid).isSome = true then do
    let unblocked ← cleanupTxn E t
    return (reply, unblocked)
  else
    return (reply, StdSet.empty)

/-- The transaction as a call of `InvokeTransaction` finds it: the pending one with this id, or a new
    one, with the keys of a PREPARE or INDEP. -/
def KVTxnServer.txn (s : KVTxnServer) (txn : String) (arg : TxnArg) : KVTxn :=
  let t := { (s.pendingTxns.find? arg.txnid).getD (KVTxn.new arg) with txnarg := arg }
  if (arg.type = .prepare ∨ arg.type = .indep) ∧ txn ≠ "" then t.include (E.message.parse txn) else t

/-- `InvokeTransaction` up to the locks: the transaction, and is it blocked? A pending transaction is
    changed where it is. -/
def lockTransaction (txn : String) (arg : TxnArg) : KVHandler (KVTxn × Bool) := do
  let s ← get
  let t := s.txn E txn arg
  if arg.type = .prepare ∨ (arg.type = .indep ∧ s.mode = .locking) then do
    let (t, blocked) ← acquireLocks E LockServer.lockForRead t.readSet.toList t false
    let (t, blocked) ← acquireLocks E LockServer.lockForWrite
      (t.writeSet.toList.map fun kv => (ofLex kv).1) t blocked
    modify fun s => { s with pendingTxns := s.pendingTxns.insert arg.txnid t }
    return (t, blocked)
  else do
    when ((s.pendingTxns.find? arg.txnid).isSome = true) <|
      modify fun s => { s with pendingTxns := s.pendingTxns.insert arg.txnid t }
    return (t, false)

/-- `InvokeTransaction`. -/
def invokeTransaction (txn : String) (arg : TxnArg) : KVHandler (String × TxnRet) := do
  let (t, blocked) ← lockTransaction E txn arg
  let (result, unblocked) ← if blocked then pure ("", StdSet.empty) else executeTransaction E t
  let s ← get
  let mode : ServerMode := if s.pendingTxns.size = 0 then .normal else .locking
  modify fun s => { s with mode := mode }
  return (result,
    { txnid := arg.txnid, blocked := blocked, commit := !blocked, unblockedTxns := unblocked
      mode := mode })

/-- The state the constructor sets up, with the keys that it loads. -/
def KVTxnServer.initial (store : String → Option String) : KVTxnServer :=
  { store := store, lockServer := LockServer.new E.retryLock, mode := .normal
    pendingTxns := StdMap.empty }

/-- `KVTxnServer` as an application. -/
def kvTxnServer (store : String → Option String) : TxnServer KVTxnServer where
  init := KVTxnServer.initial E store
  invokeTransaction := invokeTransaction E

end Dsnet.Transaction
