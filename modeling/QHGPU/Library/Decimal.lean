import Mathlib.Data.List.Basic

/-!
# Decimal numbers in text

The conversion `%d` of `sscanf` in the kernel, numbers with dots between them, and `%3d` of
`printf`.
-/

namespace Decimal

/-- `isspace`. -/
def isSpace (c : Char) : Bool := c.isWhitespace || c == Char.ofNat 11 || c == Char.ofNat 12

/-- The sign of a number, and the text after it. -/
def takeSign : List Char → Bool × List Char
  | '-' :: s => (true, s)
  | s => (false, s)

/-- `%d`: blanks, a sign and digits; the number, and the text after it. -/
def scanInt (s : List Char) : Option (Int × List Char) :=
  let (negative, s) := takeSign (s.dropWhile isSpace)
  let digits := s.takeWhile Char.isDigit
  if digits = [] then none
  else
    let n : Int := Nat.ofDigitChars 10 digits 0
    some (if negative then -n else n, s.dropWhile Char.isDigit)

/-- The numbers that `%d.%d. …` reads, up to `n` of them: it ends at the first that is not
there. -/
def scanInts : Nat → List Char → List Int
  | 0, _ => []
  | n + 1, s =>
    match scanInt s with
    | none => []
    | some (v, '.' :: rest) => v :: scanInts n rest
    | some (v, _) => [v]

/-- The number in at least `width` columns. -/
def pad (width n : Nat) : List Char :=
  let digits := Nat.toDigits 10 n
  List.replicate (width - digits.length) ' ' ++ digits

/-- Blanks and digits that stand for the number. -/
structure Numeral (s : List Char) (v : Nat) : Prop where
  split : ∃ blanks digits : List Char, s = blanks ++ digits ∧ (∀ c ∈ blanks, isSpace c) ∧
    digits ≠ [] ∧ (∀ c ∈ digits, c.isDigit) ∧ Nat.ofDigitChars 10 digits 0 = v

variable {s rest : List Char} {v : Nat} {c : Char}

/-- A digit is neither a blank nor a sign. -/
theorem not_isSpace_of_isDigit (h : c.isDigit) : isSpace c = false := by
  have hrange : 48 ≤ c.val ∧ c.val ≤ 57 := by simpa [Char.isDigit] using h
  have hne (d : Char) (hd : d.val < 48) : c ≠ d := by
    rintro rfl
    exact absurd hrange.1 (UInt32.not_le.mpr hd)
  simp [isSpace, Char.isWhitespace, hne]

private theorem takeSign_of_isDigit (h : c.isDigit) (s : List Char) :
    takeSign (c :: s) = (false, c :: s) := by
  rw [takeSign]
  rintro _ ⟨⟩
  cases h

/-- A number in front of something that is no digit is read. -/
theorem Numeral.scanInt (h : Numeral s v) (hrest : ∀ c ∈ rest.head?, c.isDigit = false) :
    scanInt (s ++ rest) = some ((v : Int), rest) := by
  obtain ⟨blanks, digits, rfl, hblanks, hne, hdigits, rfl⟩ := h.split
  obtain ⟨c, digits, rfl⟩ := List.exists_cons_of_ne_nil hne
  have hc := hdigits c List.mem_cons_self
  have hskip : (blanks ++ c :: digits ++ rest).dropWhile isSpace = c :: digits ++ rest := by
    rw [List.append_assoc, List.dropWhile_append_of_pos hblanks, List.cons_append,
      List.dropWhile_cons_of_neg (by simp [not_isSpace_of_isDigit hc])]
  have hstop : rest.takeWhile Char.isDigit = [] ∧ rest.dropWhile Char.isDigit = rest := by
    cases rest with
    | nil => exact ⟨rfl, rfl⟩
    | cons d rest => simp [hrest d rfl]
  have htake : (c :: digits ++ rest).takeWhile Char.isDigit = c :: digits := by
    rw [List.takeWhile_append_of_pos hdigits, hstop.1, List.append_nil]
  have hdrop : (c :: digits ++ rest).dropWhile Char.isDigit = rest := by
    rw [List.dropWhile_append_of_pos hdigits, hstop.2]
  rw [Decimal.scanInt, hskip, List.cons_append, takeSign_of_isDigit hc]
  rw [← List.cons_append]
  simp only [htake, hdrop, if_neg hne, Bool.false_eq_true, if_false]

/-- Numbers with dots between them are all read. -/
theorem scanInts_intercalate (numerals : List (List Char × Nat))
    (h : ∀ e ∈ numerals, Numeral e.1 e.2) :
    scanInts numerals.length (List.intercalate ['.'] (numerals.map Prod.fst)) =
      numerals.map fun e ↦ (e.2 : Int) := by
  induction numerals with
  | nil => rfl
  | cons e numerals ih =>
    have he := h e List.mem_cons_self
    have hnumerals := fun e he ↦ h e (List.mem_cons_of_mem _ he)
    cases numerals with
    | nil =>
      have hscan : scanInt (e.1 ++ []) = some ((e.2 : Int), []) := he.scanInt (by simp)
      rw [List.append_nil] at hscan
      simp [scanInts, hscan, List.intercalate]
    | cons e' numerals =>
      have hjoin : List.intercalate ['.'] ((e :: e' :: numerals).map Prod.fst) =
          e.1 ++ '.' :: List.intercalate ['.'] ((e' :: numerals).map Prod.fst) := by
        simp [List.intercalate]
      have hscan : scanInt (e.1 ++ '.' :: List.intercalate ['.'] ((e' :: numerals).map Prod.fst)) =
          some ((e.2 : Int), '.' :: List.intercalate ['.'] ((e' :: numerals).map Prod.fst)) :=
        he.scanInt (by simp)
      rw [hjoin, List.length_cons, scanInts, hscan]
      exact congrArg _ (ih hnumerals)

/-- What is printed stands for the number. -/
theorem numeral_pad (width n : Nat) : Numeral (pad width n) n := by
  refine ⟨⟨_, _, rfl, ?_, Nat.toDigits_ne_nil, ?_, Nat.ofDigitChars_ten_toDigits⟩⟩
  · intro c hc
    rw [List.eq_of_mem_replicate hc]
    decide
  · intro c hc
    exact Nat.isDigit_of_mem_toDigits (by decide) (by decide) hc

end Decimal
