import Mathlib.Data.List.TakeWhile

/-!
# Strings in fixed-size byte buffers

A C string is the part of a byte buffer before its first NUL. `strncmp` compares two
buffers up to a NUL or a given number of bytes, whichever comes first.
-/

namespace CString

/-- The bytes before the first NUL. -/
def cstr (buf : List UInt8) : List UInt8 := buf.takeWhile (· ≠ 0)

/-- `strcpy`: the string and its NUL replace the front of the destination. -/
def strcpy (dst src : List UInt8) : List UInt8 :=
  cstr src ++ 0 :: dst.drop ((cstr src).length + 1)

/-- `strncmp`: the difference of the first two bytes that differ among the first `n`, and 0
when there is none before both strings end. A buffer that ends early reads as NUL. -/
def strncmp : List UInt8 → List UInt8 → Nat → Int
  | _, _, 0 => 0
  | [], [], _ + 1 => 0
  | [], b :: _, _ + 1 => -(b.toNat : Int)
  | a :: _, [], _ + 1 => a.toNat
  | a :: as, b :: bs, n + 1 =>
    if a = b then if a = 0 then 0 else strncmp as bs n
    else (a.toNat : Int) - b.toNat

/-- `strncmp` finds no difference exactly when the strings in the first `n` bytes agree. -/
theorem strncmp_eq_zero_iff (n : Nat) (as bs : List UInt8) :
    strncmp as bs n = 0 ↔ cstr (as.take n) = cstr (bs.take n) := by
  induction n generalizing as bs with
  | zero => simp [strncmp]
  | succ n ih =>
    cases as with
    | nil =>
      cases bs with
      | nil => simp [strncmp]
      | cons b bs =>
        by_cases hb : b = 0
        · simp [strncmp, cstr, hb]
        · have hn : b.toNat ≠ 0 := fun h ↦ hb (UInt8.toNat_inj.mp h)
          simp [strncmp, cstr, hb, hn]
    | cons a as =>
      cases bs with
      | nil =>
        by_cases ha : a = 0
        · simp [strncmp, cstr, ha]
        · have hn : a.toNat ≠ 0 := fun h ↦ ha (UInt8.toNat_inj.mp h)
          simp [strncmp, cstr, ha, hn]
      | cons b bs =>
        by_cases hab : a = b
        · subst b
          by_cases ha : a = 0
          · simp [strncmp, cstr, ha]
          · simpa [strncmp, cstr, ha] using ih as bs
        · have hn : (a.toNat : Int) - b.toNat ≠ 0 := by
            intro h
            exact hab (UInt8.toNat_inj.mp (by omega))
          simp only [strncmp, hab, if_false, hn, false_iff, cstr, List.take_succ_cons,
            List.takeWhile_cons]
          by_cases ha : a = 0 <;> by_cases hb : b = 0 <;> simp_all

/-- Cutting the buffer cuts the string. -/
theorem cstr_take (n : Nat) (buf : List UInt8) : cstr (buf.take n) = (cstr buf).take n := by
  induction n generalizing buf with
  | zero => rfl
  | succ n ih =>
    cases buf with
    | nil => rfl
    | cons b bs =>
      by_cases hb : b = 0
      · simp [cstr, hb]
      · simpa [cstr, hb] using ih bs

end CString
