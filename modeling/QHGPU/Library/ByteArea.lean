import Mathlib.Data.Nat.Digits.Defs

/-!
# An area of bytes

Stores and reads of consecutive bytes at an offset, and numbers in little-endian order. What is
read outside of a store is what was there before.
-/

namespace ByteArea

/-- The bytes by offset. -/
abbrev Area := Nat → UInt8

/-- The bytes `bs` at offset `p`. -/
def write (m : Area) (p : Nat) (bs : List UInt8) : Area :=
  fun i ↦ if p ≤ i then (bs[i - p]?).getD (m i) else m i

/-- `n` bytes at offset `p`. -/
@[irreducible] def read (m : Area) (p n : Nat) : List UInt8 := (List.range n).map fun i ↦ m (p + i)

variable {m m' : Area} {p q n : Nat} {bs : List UInt8}

/-- As many bytes as asked for. -/
@[simp] theorem length_read (m : Area) (p n : Nat) : (read m p n).length = n := by
  simp [read]

private theorem read_congr (h : ∀ i < n, m (p + i) = m' (p + i)) : read m p n = read m' p n := by
  rw [read, read]
  apply List.map_congr_left
  intro i hi
  exact h i (List.mem_range.mp hi)

/-- Outside of the bytes stored. -/
theorem write_of_not_mem (h : q < p ∨ p + bs.length ≤ q) : write m p bs q = m q := by
  rw [write]
  split
  · rw [List.getElem?_eq_none (by omega), Option.getD_none]
  · rfl

/-- A byte that was stored. -/
theorem write_add (i : Nat) (hi : i < bs.length) : write m p bs (p + i) = bs[i] := by
  rw [write, if_pos (Nat.le_add_right p i), Nat.add_sub_cancel_left, List.getElem?_eq_getElem hi,
    Option.getD_some]

/-- The read of a range next to the bytes stored. -/
theorem read_write_of_disjoint (h : q + n ≤ p ∨ p + bs.length ≤ q) :
    read (write m p bs) q n = read m q n := by
  apply read_congr
  intro i hi
  apply write_of_not_mem
  omega

/-- The read of a front part of the bytes stored. -/
theorem read_write_take (h : n ≤ bs.length) : read (write m p bs) p n = bs.take n := by
  apply List.ext_getElem
  · rw [length_read, List.length_take]
    omega
  · intro i hi _
    rw [length_read] at hi
    simp [read, write_add i (by omega : i < bs.length)]

/-- The read of the bytes stored. -/
theorem read_write (m : Area) (p : Nat) (bs : List UInt8) :
    read (write m p bs) p bs.length = bs := by
  rw [read_write_take (Nat.le_refl _), List.take_length]

/-- A read ends with the read of its rest. -/
theorem take_read (h : q ≤ n) : (read m p n).take q = read m p q := by
  rw [read, read, ← List.map_take, List.take_range, Nat.min_eq_left h]

/-! ### Numbers -/

/-- The low `n` bytes of a number, the lowest first. -/
def bytes : Nat → Nat → List UInt8
  | 0, _ => []
  | n + 1, value => UInt8.ofNat value :: bytes n (value / 256)

/-- As many bytes as asked for. -/
@[simp] theorem length_bytes (n value : Nat) : (bytes n value).length = n := by
  induction n generalizing value with
  | zero => rfl
  | succ n ih => rw [bytes, List.length_cons, ih]

/-- The number with these bytes. -/
def number (bs : List UInt8) : Nat := Nat.ofDigits 256 (bs.map UInt8.toNat)

/-- What fits the bytes comes back. -/
theorem number_bytes (n value : Nat) : number (bytes n value) = value % 256 ^ n := by
  induction n generalizing value with
  | zero => simp [bytes, number, Nat.mod_one]
  | succ n ih =>
    have hrest : Nat.ofDigits 256 ((bytes n (value / 256)).map UInt8.toNat) =
        value / 256 % 256 ^ n := ih (value / 256)
    have hlow : (UInt8.ofNat value).toNat = value % 256 := UInt8.toNat_ofNat'
    rw [bytes, number, List.map_cons, Nat.ofDigits_cons, hrest, hlow]
    rw [show 256 ^ (n + 1) = 256 * 256 ^ n by rw [Nat.pow_succ, Nat.mul_comm], Nat.mod_mul]

end ByteArea
