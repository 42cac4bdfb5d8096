import Mathlib.Data.String.Basic
import Dsnet.Lib.StdMap
import Dsnet.Lib.StdSet

/-! `nistore/lockserver.{h,cc}`: locks with many readers or one writer, which queue those that have to
    wait. A waiter is dropped from the front of a queue when it has waited too long by the clock.

    The readings of the clock that are still to come are a parameter of each call. A failed `ASSERT`, and
    the time of a waiter that is not there, give `none`. The counters `readers` and `writers` are only
    printed and are left out. -/

namespace Dsnet.NIStore

/-- `struct timeval`. -/
structure Timeval where
  sec : Nat
  usec : Nat
  deriving DecidableEq, Repr

/-- The readings of `gettimeofday` to come. -/
abbrev Clock := Nat → Timeval

/-- The readings after the next one. -/
def Clock.tick (clock : Clock) : Clock := fun n => clock (n + 1)

/-- `LOCK_WAIT_TIMEOUT`, in microseconds. -/
def lockWaitTimeout : Nat := 5000

/-- `LockServer::LockState`. -/
inductive LockState where
  | unlocked | lockedForRead | lockedForWrite | lockedForReadWrite
  deriving DecidableEq, Repr

/-- `LockServer::Waiter`. -/
structure Waiter where
  write : Bool
  waitTime : Timeval
  deriving DecidableEq, Repr

/-- `checkTimeout`. -/
def Waiter.checkTimeout (w : Waiter) (now : Timeval) : Option Bool :=
  if now.sec > w.waitTime.sec then some true
  else if now.usec > w.waitTime.usec ∧ now.sec = w.waitTime.sec then
    some (decide (now.usec - w.waitTime.usec > lockWaitTimeout))
  else none

/-- `LockServer::Lock`. -/
structure Lock where
  state : LockState
  holders : StdSet Nat
  waitQ : List Nat
  waiters : StdMap Nat Waiter
  deriving DecidableEq

namespace Lock

/-- `Lock()`. -/
def new : Lock :=
  { state := .unlocked, holders := StdSet.empty, waitQ := [], waiters := StdMap.empty }

/-- `waitForLock`. -/
def waitForLock (l : Lock) (clock : Clock) (requester : Nat) (write : Bool) : Lock × Clock :=
  if (l.waiters.find? requester).isSome then (l, clock)
  else ({ l with waiters := l.waiters.insert requester { write := write, waitTime := clock 0 }
                 waitQ := l.waitQ ++ [requester] }, clock.tick)

/-- The loop that drops old waiters from the front of the queue. -/
def prune (now : Timeval) : List Nat → StdMap Nat Waiter → Option (List Nat × StdMap Nat Waiter)
  | [], waiters => some ([], waiters)
  | w :: rest, waiters =>
    (waiters.find? w).bind fun waiter => (waiter.checkTimeout now).bind fun old =>
      if old then prune now rest (waiters.erase w) else some (w :: rest, waiters)

/-- `tryAcquireLock`. -/
def tryAcquireLock (l : Lock) (clock : Clock) (requester : Nat) (write : Bool) :
    Option (Bool × Lock × Clock) :=
  if l.waitQ = [] then some (true, l, clock)
  else (prune (clock 0) l.waitQ l.waiters).bind fun
    | ([], waiters) => some (true, { l with waitQ := [], waiters := waiters }, clock.tick)
    | (first :: rest, waiters) =>
      if first = requester then
        (waiters.find? requester).bind fun waiter =>
          if waiter.write = write then
            some (true, { l with waitQ := rest, waiters := waiters.erase requester }, clock.tick)
          else none
      else some (false, waitForLock { l with waitQ := first :: rest, waiters := waiters } clock.tick
        requester write)

/-- `isWriteNext`. -/
def isWriteNext (l : Lock) (clock : Clock) : Option (Bool × Lock × Clock) :=
  if l.waitQ = [] then some (false, l, clock)
  else (prune (clock 0) l.waitQ l.waiters).bind fun
    | ([], waiters) => some (false, { l with waitQ := [], waiters := waiters }, clock.tick)
    | (first :: rest, waiters) => (waiters.find? first).map fun waiter =>
        (waiter.write, { l with waitQ := first :: rest, waiters := waiters }, clock.tick)

/-- A lock that nobody holds is taken, if it is not reserved for another. -/
def acquire (l : Lock) (clock : Clock) (requester : Nat) (write : Bool) :
    Option (Bool × Lock × Clock) :=
  (l.tryAcquireLock clock requester write).bind fun (ok, l, clock) =>
    if ok = false then some (false, l, clock)
    else if l.holders.size = 0 then
      some (true, { l with state := if write then .lockedForWrite else .lockedForRead
                           holders := l.holders.insert requester }, clock)
    else none

/-- `lockForRead`. -/
def lockForRead (l : Lock) (clock : Clock) (requester : Nat) : Option (Bool × Lock × Clock) :=
  match l.state with
  | .unlocked => l.acquire clock requester false
  | .lockedForRead =>
    if requester ∈ l.holders.toList then some (true, l, clock)
    else (l.isWriteNext clock).map fun (next, l, clock) =>
      if next then (false, l.waitForLock clock requester false)
      else (true, { l with holders := l.holders.insert requester }, clock)
  | .lockedForWrite | .lockedForReadWrite =>
    if requester ∈ l.holders.toList then some (true, { l with state := .lockedForReadWrite }, clock)
    else if l.holders.size = 1 then some (false, l.waitForLock clock requester false)
    else none

/-- `lockForWrite`. -/
def lockForWrite (l : Lock) (clock : Clock) (requester : Nat) : Option (Bool × Lock × Clock) :=
  match l.state with
  | .unlocked => l.acquire clock requester true
  | .lockedForRead =>
    if l.holders.size = 1 ∧ requester ∈ l.holders.toList then
      some (true, { l with state := .lockedForReadWrite }, clock)
    else some (false, l.waitForLock clock requester true)
  | .lockedForWrite | .lockedForReadWrite =>
    if l.holders.size = 1 then
      if requester ∈ l.holders.toList then some (true, l, clock)
      else some (false, l.waitForLock clock requester true)
    else none

/-- `releaseForRead`. -/
def releaseForRead (l : Lock) (holder : Nat) : Lock :=
  if holder ∈ l.holders.toList then
    match l.state with
    | .unlocked | .lockedForWrite => l
    | .lockedForRead =>
      let holders := l.holders.erase holder
      { l with holders := holders, state := if holders.size = 0 then .unlocked else .lockedForRead }
    | .lockedForReadWrite => { l with state := .lockedForWrite }
  else l

/-- `releaseForWrite`. -/
def releaseForWrite (l : Lock) (holder : Nat) : Option Lock :=
  if holder ∈ l.holders.toList then
    match l.state with
    | .unlocked | .lockedForRead => some l
    | .lockedForWrite =>
      let holders := l.holders.erase holder
      if holders.size = 0 then some { l with holders := holders, state := .unlocked } else none
    | .lockedForReadWrite =>
      if l.holders.size = 1 then some { l with state := .lockedForRead } else none
  else some l

end Lock

/-- `LockServer`, with the clock that it reads. -/
structure LockServer where
  locks : StdMap String Lock
  clock : Clock

namespace LockServer

/-- `LockServer()`. -/
def new (clock : Clock) : LockServer := { locks := StdMap.empty, clock := clock }

/-- `locks[lock]`, which creates the lock when it is missing. -/
def lock (s : LockServer) (key : String) : Lock := (s.locks.find? key).getD Lock.new

/-- The lock is changed where it is. -/
def setLock (s : LockServer) (key : String) (l : Lock) : LockServer :=
  { s with locks := s.locks.insert key l }

/-- `lockForRead`. -/
def lockForRead (s : LockServer) (key : String) (requester : Nat) : Option (Bool × LockServer) :=
  ((s.lock key).lockForRead s.clock requester).map fun (ok, l, clock) =>
    (ok, { s.setLock key l with clock := clock })

/-- `lockForWrite`. -/
def lockForWrite (s : LockServer) (key : String) (requester : Nat) : Option (Bool × LockServer) :=
  ((s.lock key).lockForWrite s.clock requester).map fun (ok, l, clock) =>
    (ok, { s.setLock key l with clock := clock })

/-- `releaseForRead`. -/
def releaseForRead (s : LockServer) (key : String) (holder : Nat) : LockServer :=
  if (s.locks.find? key).isSome then s.setLock key ((s.lock key).releaseForRead holder) else s

/-- `releaseForWrite`. -/
def releaseForWrite (s : LockServer) (key : String) (holder : Nat) : Option LockServer :=
  if (s.locks.find? key).isSome then
    ((s.lock key).releaseForWrite holder).map (s.setLock key)
  else some s

end LockServer
end Dsnet.NIStore
