import Mathlib.Tactic.Common

/-! Serialization of values as strings. A `Codec` is any serialization that parses back; protocol messages
    carry serialized messages of other types as strings, and models take the codecs as parameters.

    `Encoding`s are one way to get them: what an encoding writes tells where it ends, so encodings of
    the parts of a value make one of the value. Numbers are written in unary. -/

namespace Dsnet

/-- The serialization of a type: what is serialized parses back. -/
structure Codec (α : Type) where
  serialize : α → String
  parse : String → α
  parse_serialize : ∀ a, parse (serialize a) = a

attribute [simp] Codec.parse_serialize

/-- A way to write values that tells where each ends. -/
structure Encoding (α : Type) where
  write : α → List Char
  read : List Char → α × List Char
  read_write : ∀ a rest, read (write a ++ rest) = (a, rest)

namespace Encoding
variable {α β : Type}

attribute [simp] read_write

/-- The codec that an encoding gives. -/
def codec (e : Encoding α) : Codec α where
  serialize a := String.ofList (e.write a)
  parse s := (e.read s.toList).1
  parse_serialize a := by
    have := e.read_write a []
    rw [List.append_nil] at this
    rw [String.toList_ofList, this]

/-- One character. -/
def char : Encoding Char where
  write c := [c]
  read
    | c :: rest => (c, rest)
    | [] => (default, [])
  read_write _ _ := rfl

/-- Reads a number in unary. -/
def readNat : List Char → Nat × List Char
  | '1' :: rest => ((readNat rest).1 + 1, (readNat rest).2)
  | _ :: rest => (0, rest)
  | [] => (0, [])

/-- A number in unary. -/
def nat : Encoding Nat where
  write n := List.replicate n '1' ++ ['0']
  read := readNat
  read_write n rest := by
    induction n with
    | zero => rfl
    | succ n ih => rw [List.replicate_succ, List.cons_append, List.cons_append, readNat, ih]

/-- A value by what it is made of. -/
def map (e : Encoding α) (f : β → α) (f' : α → β) (h : ∀ b, f' (f b) = b) : Encoding β where
  write b := e.write (f b)
  read l := (f' (e.read l).1, (e.read l).2)
  read_write b rest := by rw [e.read_write, h]

/-- One value after the other. -/
def prod (e : Encoding α) (e' : Encoding β) : Encoding (α × β) where
  write x := e.write x.1 ++ e'.write x.2
  read l := (((e.read l).1, (e'.read (e.read l).2).1), (e'.read (e.read l).2).2)
  read_write x rest := by rw [List.append_assoc, e.read_write, e'.read_write]

/-- Reads `n` values. -/
def readMany (e : Encoding α) : Nat → List Char → List α × List Char
  | 0, l => ([], l)
  | n + 1, l => ((e.read l).1 :: (readMany e n (e.read l).2).1, (readMany e n (e.read l).2).2)

theorem readMany_write (e : Encoding α) (rest : List Char) :
    ∀ as : List α, e.readMany as.length (as.flatMap e.write ++ rest) = (as, rest)
  | [] => rfl
  | a :: as => by
      rw [List.length_cons, List.flatMap_cons, List.append_assoc, readMany, e.read_write,
        readMany_write e rest as]

/-- How many values there are, and the values. -/
def list (e : Encoding α) : Encoding (List α) where
  write as := nat.write as.length ++ as.flatMap e.write
  read l := e.readMany (nat.read l).1 (nat.read l).2
  read_write as rest := by rw [List.append_assoc, nat.read_write, readMany_write]

/-- A string by its characters. -/
def string : Encoding String := char.list.map String.toList String.ofList fun _ => String.ofList_toList

/-- A value, if there is one. -/
def option (e : Encoding α) : Encoding (Option α) :=
  e.list.map Option.toList List.head? (by rintro (_ | _) <;> rfl)

end Encoding
end Dsnet
