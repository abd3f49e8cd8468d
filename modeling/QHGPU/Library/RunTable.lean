import Mathlib.Logic.Function.Basic

/-!
# Runs kept twice

An allocator keeps for each unit a bit that says whether it is in use, and for the first unit
of each block the length of the block. The two agree when a bit is set exactly for the units
of some block, the blocks do not overlap, and they end inside the table.
-/

namespace RunTable

/-- A bit for each unit, and a length at the first unit of each block. -/
structure Table where
  bit : Nat → Bool
  size : Nat → Nat

/-- The units `[i, i + n)` become a block. -/
def Table.claim (t : Table) (i n : Nat) : Table where
  bit b := if i ≤ b ∧ b < i + n then true else t.bit b
  size := Function.update t.size i n

/-- The block that starts at `i` becomes free. -/
def Table.release (t : Table) (i : Nat) : Table where
  bit b := if i ≤ b ∧ b < i + t.size i then false else t.bit b
  size := Function.update t.size i 0

/-- The blocks lie inside `[0, cap)` without overlap, and the bits are those of the blocks. -/
structure Sound (cap : Nat) (t : Table) : Prop where
  inside : ∀ i, 0 < t.size i → i + t.size i ≤ cap
  disjoint : ∀ i j, i ≠ j → 0 < t.size i → 0 < t.size j →
    i + t.size i ≤ j ∨ j + t.size j ≤ i
  bit_iff : ∀ b, t.bit b = true ↔ ∃ i, i ≤ b ∧ b < i + t.size i

variable {cap : Nat} {t : Table}

/-- A table without blocks is sound. -/
theorem sound_empty (hbit : ∀ b, t.bit b = false) (hsize : ∀ i, t.size i = 0) : Sound cap t := by
  constructor
  · intro i hi
    rw [hsize i] at hi
    omega
  · intro i j _ hi
    rw [hsize i] at hi
    omega
  · intro b
    rw [hbit b]
    constructor
    · intro h
      cases h
    · rintro ⟨i, hle, hlt⟩
      rw [hsize i] at hlt
      omega

/-- A unit whose bit is clear starts no block. -/
theorem Sound.size_eq_zero (h : Sound cap t) {i : Nat} (hi : t.bit i = false) :
    t.size i = 0 := by
  by_contra hne
  have hset := (h.bit_iff i).mpr ⟨i, Nat.le_refl i, by omega⟩
  rw [hi] at hset
  cases hset

/-- Units with clear bits become a block. A block of length 0 leaves everything as it is. -/
theorem Sound.claim (h : Sound cap t) {i n : Nat} (hstart : t.bit i = false)
    (hfit : i + n ≤ cap) (hclear : ∀ b, i ≤ b → b < i + n → t.bit b = false) :
    Sound cap (t.claim i n) := by
  have hzero := h.size_eq_zero hstart
  -- an old block ends before the new one, or starts after it
  have hold (j : Nat) (hj : 0 < t.size j) (hn : 0 < n) : j + t.size j ≤ i ∨ i + n ≤ j := by
    by_contra hoverlap
    have hset := (h.bit_iff (max i j)).mpr ⟨j, by omega, by omega⟩
    rw [hclear (max i j) (by omega) (by omega)] at hset
    cases hset
  constructor
  · intro j hj
    change 0 < Function.update t.size i n j at hj
    change j + Function.update t.size i n j ≤ cap
    by_cases hji : j = i
    · subst hji
      rw [Function.update_self]
      exact hfit
    · rw [Function.update_of_ne hji] at hj ⊢
      exact h.inside j hj
  · intro j k hjk hj hk
    change 0 < Function.update t.size i n j at hj
    change 0 < Function.update t.size i n k at hk
    change j + Function.update t.size i n j ≤ k ∨ k + Function.update t.size i n k ≤ j
    by_cases hji : j = i
    · subst hji
      rw [Function.update_of_ne (Ne.symm hjk)] at hk ⊢
      rw [Function.update_self] at hj ⊢
      exact (hold k hk hj).symm
    · rw [Function.update_of_ne hji] at hj ⊢
      by_cases hki : k = i
      · subst hki
        rw [Function.update_self] at hk ⊢
        exact hold j hj hk
      · rw [Function.update_of_ne hki] at hk ⊢
        exact h.disjoint j k hjk hj hk
  · intro b
    change (if i ≤ b ∧ b < i + n then true else t.bit b) = true ↔
      ∃ j, j ≤ b ∧ b < j + Function.update t.size i n j
    constructor
    · intro hb
      split at hb
      · next hin =>
        refine ⟨i, hin.1, ?_⟩
        rw [Function.update_self]
        exact hin.2
      · obtain ⟨j, hle, hlt⟩ := (h.bit_iff b).mp hb
        refine ⟨j, hle, ?_⟩
        rw [Function.update_of_ne]
        · exact hlt
        · rintro rfl
          omega
    · rintro ⟨j, hle, hlt⟩
      by_cases hji : j = i
      · subst hji
        rw [Function.update_self] at hlt
        rw [if_pos ⟨hle, hlt⟩]
      · rw [Function.update_of_ne hji] at hlt
        split
        · rfl
        · exact (h.bit_iff b).mpr ⟨j, hle, hlt⟩

/-- A block is given back, and the others stay. -/
theorem Sound.release (h : Sound cap t) (i : Nat) : Sound cap (t.release i) := by
  have hpos {j : Nat} (hj : 0 < Function.update t.size i 0 j) : j ≠ i ∧ 0 < t.size j := by
    by_cases hji : j = i
    · subst hji
      rw [Function.update_self] at hj
      omega
    · rw [Function.update_of_ne hji] at hj
      exact ⟨hji, hj⟩
  constructor
  · intro j hj
    obtain ⟨hji, hj⟩ := hpos hj
    change j + Function.update t.size i 0 j ≤ cap
    rw [Function.update_of_ne hji]
    exact h.inside j hj
  · intro j k hjk hj hk
    obtain ⟨hji, hj⟩ := hpos hj
    obtain ⟨hki, hk⟩ := hpos hk
    change j + Function.update t.size i 0 j ≤ k ∨ k + Function.update t.size i 0 k ≤ j
    rw [Function.update_of_ne hji, Function.update_of_ne hki]
    exact h.disjoint j k hjk hj hk
  · intro b
    change (if i ≤ b ∧ b < i + t.size i then false else t.bit b) = true ↔
      ∃ j, j ≤ b ∧ b < j + Function.update t.size i 0 j
    constructor
    · intro hb
      split at hb
      · cases hb
      · next hout =>
        obtain ⟨j, hle, hlt⟩ := (h.bit_iff b).mp hb
        refine ⟨j, hle, ?_⟩
        rw [Function.update_of_ne]
        · exact hlt
        · rintro rfl
          exact hout ⟨hle, hlt⟩
    · rintro ⟨j, hle, hlt⟩
      have hj : 0 < Function.update t.size i 0 j := by omega
      obtain ⟨hji, hj⟩ := hpos hj
      rw [Function.update_of_ne hji] at hlt
      rw [if_neg]
      · exact (h.bit_iff b).mpr ⟨j, hle, hlt⟩
      · rintro ⟨hle', hlt'⟩
        have := h.disjoint i j (Ne.symm hji) (by omega) hj
        omega

end RunTable
