import Dsnet.Lib.StdMap
import Dsnet.Common.Log

/-! `common/replica.{h,cc}`: what the replicas of every protocol have in common. The application
    object is modelled by the calls made into it so far: what it answers is a function of those
    calls and of the one being made. -/

namespace Dsnet

/-- `TransportAddress`: a replica of the group, or a client. -/
inductive Addr where
  | replica (idx : Nat)
  | client (id : Nat)
  deriving DecidableEq, Repr

/-- `ReplicaStatus`. -/
inductive ReplicaStatus where
  | normal | viewChange | recovering | gapCommit | epochChange
  deriving DecidableEq, Repr

/-- A call into the `AppReplica`. -/
inductive Upcall where
  | leader (opnum : Nat) (op : String)
  | execute (opnum : Nat) (request : Request)
  | unlogged (op : String)
  | rollback (current backto : Nat) (reqs : List (Nat × String))
  | commit (opnum : Nat)
  deriving DecidableEq, Repr

/-- An `AppReplica`, as the answers to its upcalls; `LeaderUpcall` says whether to replicate the
    operation, and what. -/
structure App where
  leaderUpcall : List Upcall → Nat → String → Bool × String
  replicaUpcall : List Upcall → Nat → String → Bool → String
  unloggedUpcall : List Upcall → String → String

/-- The defaults of `AppReplica`: replicate every operation as it is, and answer nothing. -/
def App.default : App where
  leaderUpcall _ _ op := (true, op)
  replicaUpcall _ _ _ _ := ""
  unloggedUpcall _ _ := ""

/-- The executions among the calls: opnum and request of each, in the order they were made. -/
def executions : List Upcall → List (Nat × Request)
  | [] => []
  | .execute k req :: us => (k, req) :: executions us
  | _ :: us => executions us

@[simp] theorem executions_append : ∀ us us' : List Upcall,
    executions (us ++ us') = executions us ++ executions us'
  | [], _ => rfl
  | .execute k req :: us, us' => by simp [executions, executions_append us us']
  | .leader .. :: us, us' => by simp [executions, executions_append us us']
  | .unlogged .. :: us, us' => by simp [executions, executions_append us us']
  | .rollback .. :: us, us' => by simp [executions, executions_append us us']
  | .commit .. :: us, us' => by simp [executions, executions_append us us']

/-- The requests of a log's contents with their opnums: what executing all of it in order gives. -/
def opnumbered (c : List (Nat × Request)) : List (Nat × Request) :=
  (c.zipIdx 1).map fun x => (x.2, x.1.2)

theorem getElem?_opnumbered (l : List (Nat × Request)) (i : Nat) :
    (opnumbered l)[i]? = l[i]?.map fun x => (i + 1, x.2) := by
  rw [opnumbered, List.getElem?_map, List.getElem?_zipIdx, Option.map_map]
  cases l[i]? with
  | none => rfl
  | some x => simp [Nat.add_comm]

theorem opnumbered_prefix {l l' : List (Nat × Request)} (h : l <+: l') :
    opnumbered l <+: opnumbered l' := by
  obtain ⟨t, rfl⟩ := h
  rw [opnumbered, opnumbered, List.zipIdx_append, List.map_append]
  exact List.prefix_append ..

@[simp] theorem length_opnumbered (l : List (Nat × Request)) :
    (opnumbered l).length = l.length := by
  simp [opnumbered]

theorem take_opnumbered (l : List (Nat × Request)) (k : Nat) :
    (opnumbered l).take k = opnumbered (l.take k) := by
  refine List.ext_getElem? fun i => ?_
  rw [List.getElem?_take, getElem?_opnumbered, getElem?_opnumbered, List.getElem?_take]
  split_ifs <;> rfl

/-- What a prefix gives does not depend on what follows it. -/
theorem take_opnumbered_mono {l l' : List (Nat × Request)} {k : Nat} (h : l <+: l')
    (hk : k ≤ l.length) : (opnumbered l').take k = (opnumbered l).take k := by
  obtain ⟨t, ht⟩ := opnumbered_prefix h
  rw [← ht, List.take_append_of_le_length (by simpa using hk)]

/-- The next execution extends what is executed. -/
theorem take_opnumbered_succ {l : List (Nat × Request)} {k : Nat} {x : Nat × Request}
    (h : l[k]? = some x) :
    (opnumbered l).take (k + 1) = (opnumbered l).take k ++ [(k + 1, x.2)] := by
  rw [List.take_add_one, getElem?_opnumbered, h]
  rfl

/-- `std::min_element` of a number carried by the messages of a map; none when the map is empty. -/
def minElement {β : Type} (f : β → Nat) (m : StdMap Nat β) : Option Nat :=
  match m.toList with
  | [] => none
  | x :: xs => some (xs.foldl (fun a y => min a (f y.2)) (f x.2))

end Dsnet
