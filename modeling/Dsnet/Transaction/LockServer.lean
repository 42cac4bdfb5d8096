import Mathlib.Data.String.Basic
import Dsnet.Lib.StdMap
import Dsnet.Lib.StdSet

/-! `transaction/common/backend/lockserver.{h,cc}`: locks with many readers or one writer, which queue
    those that have to wait. With `retryLock`, a lock that is released is left to whoever asks for it
    next; otherwise it goes to those in its queue.

    A failed `ASSERT` gives `none`. The front of an empty queue is taken to be no requester. -/

namespace Dsnet.Transaction

/-- `LockServer::LockState`. -/
inductive LockState where
  | unlocked | lockedForRead | lockedForWrite | lockedForReadWrite
  deriving DecidableEq, Repr

/-- `LockServer::Waiter`. -/
structure Waiter where
  read : Bool
  write : Bool
  deriving DecidableEq, Repr

/-- `Waiter(w)`. -/
def Waiter.of (w : Bool) : Waiter := { read := !w, write := w }

/-- `LockServer::Lock`. -/
structure Lock where
  state : LockState
  holders : StdSet Nat
  waitQ : List Nat
  waiters : Nat → Option Waiter

namespace Lock

/-- `Lock()`. -/
def new : Lock := { state := .unlocked, holders := StdSet.empty, waitQ := [], waiters := fun _ => none }

/-- `waitForLock`. -/
def waitForLock (l : Lock) (requester : Nat) (write : Bool) : Lock :=
  match l.waiters requester with
  | some w =>
    { l with waiters := Function.update l.waiters requester
               (some (if write then { w with write := true } else { w with read := true })) }
  | none =>
    { l with waiters := Function.update l.waiters requester (some (Waiter.of write))
             waitQ := l.waitQ ++ [requester] }

/-- `waitQ.pop()` and `waiters.erase(requester)`. -/
def popWaiter (l : Lock) (requester : Nat) (rest : List Nat) : Option Lock :=
  (l.waiters requester).map fun _ =>
    { l with waitQ := rest, waiters := Function.update l.waiters requester none }

/-- `tryAcquireLock`. -/
def tryAcquireLock (l : Lock) (requester : Nat) (write : Bool) : Option (Bool × Lock) :=
  match l.waitQ with
  | [] => some (true, l)
  | first :: rest =>
    if first = requester then (l.popWaiter requester rest).map fun l => (true, l)
    else some (false, l.waitForLock requester write)

/-- `isWriteNext`. -/
def isWriteNext (l : Lock) : Option Bool :=
  match l.waitQ with
  | [] => some false
  | first :: _ => (l.waiters first).map (·.write)

/-- A lock that nobody holds is taken, if it is not reserved for another. -/
def acquire (l : Lock) (requester : Nat) (write : Bool) : Option (Bool × Lock) :=
  (l.tryAcquireLock requester write).bind fun (ok, l) =>
    if ok = false then some (false, l)
    else if l.holders.size = 0 then
      some (true, { l with state := if write then .lockedForWrite else .lockedForRead
                           holders := l.holders.insert requester })
    else none

end Lock

/-- What a call works on: the lock, and the counters of the server. -/
structure LockRef where
  lock : Lock
  readers : Nat
  writers : Nat

namespace LockRef

/-- `lockForRead`. -/
def lockForRead (x : LockRef) (requester : Nat) : Option (Bool × LockRef) :=
  match x.lock.state with
  | .unlocked =>
    (x.lock.acquire requester false).map fun (ok, l) =>
      (ok, { x with lock := l, readers := if ok then x.readers + 1 else x.readers })
  | .lockedForRead =>
    if requester ∈ x.lock.holders.toList then some (true, x)
    else x.lock.isWriteNext.map fun next =>
      if next then (false, { x with lock := x.lock.waitForLock requester false })
      else (true, { x with lock := { x.lock with holders := x.lock.holders.insert requester }
                           readers := x.readers + 1 })
  | .lockedForWrite | .lockedForReadWrite =>
    if requester ∈ x.lock.holders.toList then
      some (true, { x with lock := { x.lock with state := .lockedForReadWrite }
                           readers := if x.lock.state = .lockedForWrite then x.readers + 1 else x.readers })
    else if x.lock.holders.size = 1 then
      some (false, { x with lock := x.lock.waitForLock requester false })
    else none

/-- `lockForWrite`. -/
def lockForWrite (x : LockRef) (requester : Nat) : Option (Bool × LockRef) :=
  match x.lock.state with
  | .unlocked =>
    (x.lock.acquire requester true).map fun (ok, l) =>
      (ok, { x with lock := l, writers := if ok then x.writers + 1 else x.writers })
  | .lockedForRead =>
    if x.lock.holders.size = 1 ∧ requester ∈ x.lock.holders.toList then
      some (true, { x with lock := { x.lock with state := .lockedForReadWrite }
                           writers := x.writers + 1 })
    else some (false, { x with lock := x.lock.waitForLock requester true })
  | .lockedForWrite | .lockedForReadWrite =>
    if x.lock.holders.size = 1 then
      if requester ∈ x.lock.holders.toList then some (true, x)
      else some (false, { x with lock := x.lock.waitForLock requester true })
    else none

/-- `releaseForRead` as far as `TryAcquireForWaiters`, and whether it goes on to that. -/
def releaseForRead (x : LockRef) (holder : Nat) : Option (LockRef × Bool) :=
  if holder ∈ x.lock.holders.toList then
    match x.lock.state with
    | .unlocked | .lockedForWrite => some (x, false)
    | .lockedForRead =>
      let l := { x.lock with holders := x.lock.holders.erase holder }
      if l.holders.size = 0 then
        some ({ x with lock := { l with state := .unlocked }, readers := x.readers - 1 }, true)
      else some ({ x with lock := l, readers := x.readers - 1 }, false)
    | .lockedForReadWrite =>
      some ({ x with lock := { x.lock with state := .lockedForWrite }, readers := x.readers - 1 }, false)
  else some (x, false)

/-- `releaseForWrite` as far as `TryAcquireForWaiters`, and whether it goes on to that. -/
def releaseForWrite (x : LockRef) (holder : Nat) : Option (LockRef × Bool) :=
  if holder ∈ x.lock.holders.toList then
    match x.lock.state with
    | .unlocked | .lockedForRead => some (x, false)
    | .lockedForWrite =>
      let l := { x.lock with holders := x.lock.holders.erase holder }
      if l.holders.size = 0 then
        some ({ x with lock := { l with state := .unlocked }, writers := x.writers - 1 }, true)
      else none
    | .lockedForReadWrite =>
      if x.lock.holders.size = 1 then
        some ({ x with lock := { x.lock with state := .lockedForRead }, writers := x.writers - 1 }, true)
      else none
  else some (x, false)

/-- `TryAcquireForWaiters`, for the first in the queue: has it acquired the lock? -/
def acquireForWaiter (x : LockRef) (waiter : Nat) (w : Waiter) : Option (Bool × LockRef) :=
  (if w.write then x.lockForWrite waiter else some (true, x)).bind fun (okWrite, x) =>
  (if w.read then x.lockForRead waiter else some (true, x)).map fun (okRead, x) =>
    (okWrite && okRead, x)

/-- `TryAcquireForWaiters`, once the waiter has acquired the lock: it is taken off the queue, if it is
    there still. -/
def dequeue (x : LockRef) (waiter : Nat) : Option LockRef :=
  match x.lock.waitQ with
  | [] => some x
  | first :: rest =>
    if first = waiter then (x.lock.popWaiter waiter rest).map fun l => { x with lock := l }
    else some x

/-- `TryAcquireForWaiters`: a lock for each in the queue, as long as that works, and who has got one. A
    round that works takes one off the queue, so its length bounds the number of rounds. -/
def acquireForWaiters : Nat → LockRef → StdSet Nat → Option (LockRef × StdSet Nat)
  | 0, x, newholders => some (x, newholders)
  | n + 1, x, newholders =>
    match x.lock.waitQ with
    | [] => some (x, newholders)
    | waiter :: _ =>
      (x.lock.waiters waiter).bind fun w =>
      (x.acquireForWaiter waiter w).bind fun (acquired, x) =>
      if acquired then (x.dequeue waiter).bind fun x => acquireForWaiters n x (newholders.insert waiter)
      else some (x, newholders)

end LockRef

/-- `LockServer`. -/
structure LockServer where
  retryLock : Bool
  locks : StdMap String Lock
  readers : Nat
  writers : Nat

namespace LockServer

/-- `LockServer(retryLock)`. -/
def new (retryLock : Bool) : LockServer :=
  { retryLock := retryLock, locks := StdMap.empty, readers := 0, writers := 0 }

/-- `locks[lock]`, which creates the lock when it is missing. -/
def lock (s : LockServer) (key : String) : Lock := (s.locks.find? key).getD Lock.new

/-- The lock of `key`, with the counters. -/
def ref (s : LockServer) (key : String) : LockRef :=
  { lock := s.lock key, readers := s.readers, writers := s.writers }

/-- The lock of `key` and the counters are changed where they are. -/
def setRef (s : LockServer) (key : String) (x : LockRef) : LockServer :=
  { s with locks := s.locks.insert key x.lock, readers := x.readers, writers := x.writers }

/-- `lockForRead`. -/
def lockForRead (s : LockServer) (key : String) (requester : Nat) : Option (Bool × LockServer) :=
  ((s.ref key).lockForRead requester).map fun (ok, x) => (ok, s.setRef key x)

/-- `lockForWrite`. -/
def lockForWrite (s : LockServer) (key : String) (requester : Nat) : Option (Bool × LockServer) :=
  ((s.ref key).lockForWrite requester).map fun (ok, x) => (ok, s.setRef key x)

/-- What follows when a lock is released, with those that have got it then. -/
def promote (s : LockServer) (key : String) (y : LockRef × Bool) : Option (LockServer × StdSet Nat) :=
  if y.2 = true ∧ s.retryLock = false then
    (y.1.acquireForWaiters y.1.lock.waitQ.length StdSet.empty).map fun (x, newholders) =>
      (s.setRef key x, newholders)
  else some (s.setRef key y.1, StdSet.empty)

/-- `releaseForRead`. -/
def releaseForRead (s : LockServer) (key : String) (holder : Nat) :
    Option (LockServer × StdSet Nat) :=
  if (s.locks.find? key).isSome then ((s.ref key).releaseForRead holder).bind (s.promote key)
  else some (s, StdSet.empty)

/-- `releaseForWrite`. -/
def releaseForWrite (s : LockServer) (key : String) (holder : Nat) :
    Option (LockServer × StdSet Nat) :=
  if (s.locks.find? key).isSome then ((s.ref key).releaseForWrite holder).bind (s.promote key)
  else some (s, StdSet.empty)

end LockServer
end Dsnet.Transaction
