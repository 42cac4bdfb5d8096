import Mathlib.Data.Nat.Digits.Defs

/-! Numbers in a fixed number of bytes, the least significant one first, as they stand in the memory of a
    little-endian machine, and the most significant one first, as they stand on the network. -/

namespace Dsnet

/-- The number in `w` bytes; what does not fit is lost. -/
def bytes : Nat → Nat → List Nat
  | 0, _ => []
  | w + 1, n => n % 256 :: bytes w (n / 256)

@[simp] theorem length_bytes : ∀ w n, (bytes w n).length = w
  | 0, _ => rfl
  | w + 1, n => by rw [bytes, List.length_cons, length_bytes w]

theorem lt_of_mem_bytes {b : Nat} : ∀ {w n : Nat}, b ∈ bytes w n → b < 256
  | 0, _, h => by cases h
  | w + 1, n, h => by
      rcases List.mem_cons.mp h with rfl | h
      · exact Nat.mod_lt _ (by decide)
      · exact lt_of_mem_bytes h

/-- The bytes stand for the number, up to what does not fit. -/
theorem ofDigits_bytes : ∀ w n, Nat.ofDigits 256 (bytes w n) = n % 256 ^ w
  | 0, n => by rw [bytes, Nat.ofDigits_nil, pow_zero, Nat.mod_one]
  | w + 1, n => by
      rw [bytes, Nat.ofDigits_cons, ofDigits_bytes w, pow_succ, Nat.mul_comm (256 ^ w), Nat.mod_mul]

theorem ofDigits_bytes_of_lt {w n : Nat} (h : n < 256 ^ w) : Nat.ofDigits 256 (bytes w n) = n := by
  rw [ofDigits_bytes, Nat.mod_eq_of_lt h]

/-! ### Network byte order -/

/-- The number in `w` bytes, as `htons` and the like leave it in memory. -/
def netBytes (w n : Nat) : List UInt8 := (bytes w n).reverse.map UInt8.ofNat

/-- The number in the first `w` bytes of a buffer, and what follows; there is none when the buffer is too
    short. -/
def readNet (w : Nat) (buf : List UInt8) : Option (Nat × List UInt8) :=
  if buf.length < w then none
  else some (Nat.ofDigits 256 ((buf.take w).map UInt8.toNat).reverse, buf.drop w)

@[simp] theorem length_netBytes (w n : Nat) : (netBytes w n).length = w := by
  rw [netBytes, List.length_map, List.length_reverse, length_bytes]

/-- A number is read as it was written. -/
theorem readNet_netBytes {w n : Nat} (h : n < 256 ^ w) (rest : List UInt8) :
    readNet w (netBytes w n ++ rest) = some (n, rest) := by
  have hback : (netBytes w n).map UInt8.toNat = (bytes w n).reverse := by
    rw [netBytes, List.map_map]
    refine (List.map_congr_left fun b hb => ?_).trans (List.map_id' _)
    exact Nat.mod_eq_of_lt (lt_of_mem_bytes (List.mem_reverse.mp hb))
  have hlen : ¬ (netBytes w n ++ rest).length < w := by
    rw [List.length_append, length_netBytes]
    omega
  rw [readNet, if_neg hlen, List.take_left' (length_netBytes w n), List.drop_left' (length_netBytes w n), hback,
    List.reverse_reverse, ofDigits_bytes_of_lt h]

end Dsnet
