import Mathlib.Algebra.BigOperators.Intervals
import Mathlib.Algebra.Order.BigOperators.Group.Finset

/-!
# Exclusive prefix sums by sweeps over a tree

The values in the array of `2 ^ m` entries after each round of the two sweeps. After all rounds
each entry is the sum of those before it.
-/

namespace Scan

variable {M : Type} [AddCommMonoid M]

/-- After `s` rounds of the sweep up: the last entry of each block of `2 ^ s` holds the sum of the
block. -/
def up (x : Nat → M) : Nat → Nat → M
  | 0, j => x j
  | s + 1, j => if 2 ^ (s + 1) ∣ j + 1 then up x s j + up x s (j - 2 ^ s) else up x s j

/-- After the last entry was cleared and `k` rounds of the sweep down: the last entry of each block
of `2 ^ (m - k)` holds the sum of all entries before the block. -/
def down (x : Nat → M) (m : Nat) : Nat → Nat → M
  | 0, j => if j + 1 = 2 ^ m then 0 else up x m j
  | k + 1, j =>
    if 2 ^ (m - k) ∣ j + 1 then down x m k j + down x m k (j - 2 ^ (m - (k + 1)))
    else if 2 ^ (m - (k + 1)) ∣ j + 1 then down x m k (j + 2 ^ (m - (k + 1)))
    else down x m k j

variable {x : Nat → M} {m s k j : Nat}

private theorem up_of_dvd (h : 2 ^ s ∣ j + 1) :
    up x s j = ∑ i ∈ Finset.Ico (j + 1 - 2 ^ s) (j + 1), x i := by
  induction s generalizing j with
  | zero => simp [up]
  | succ s ih =>
    have hpow : 2 ^ (s + 1) = 2 ^ s + 2 ^ s := by rw [Nat.pow_succ, Nat.mul_two]
    have hle : 2 ^ (s + 1) ≤ j + 1 := Nat.le_of_dvd j.succ_pos h
    have hpos : 0 < 2 ^ s := Nat.two_pow_pos s
    have hright : 2 ^ s ∣ j + 1 := (Nat.pow_dvd_pow 2 s.le_succ).trans h
    have hleft : 2 ^ s ∣ j - 2 ^ s + 1 := by
      have := Nat.dvd_sub hright (Nat.dvd_refl (2 ^ s))
      rwa [show j + 1 - 2 ^ s = j - 2 ^ s + 1 by omega] at this
    rw [up, if_pos h, ih hright, ih hleft, show j - 2 ^ s + 1 = j + 1 - 2 ^ s by omega,
      show j + 1 - 2 ^ s - 2 ^ s = j + 1 - 2 ^ (s + 1) by omega, add_comm]
    exact Finset.sum_Ico_consecutive x (by omega) (by omega)

/-- Entries that end no larger block keep their value. -/
theorem up_of_not_dvd {s' : Nat} (hle : s ≤ s') (h : ¬2 ^ (s + 1) ∣ j + 1) :
    up x s' j = up x s j := by
  induction s' with
  | zero =>
    obtain rfl := Nat.le_zero.mp hle
    rfl
  | succ s' ih =>
    rcases hle.eq_or_lt with rfl | hlt
    · rfl
    · have hnot : ¬2 ^ (s' + 1) ∣ j + 1 :=
        fun hdvd ↦ h ((Nat.pow_dvd_pow 2 (by omega)).trans hdvd)
      rw [up, if_neg hnot, ih (by omega)]

private theorem down_eq (hk : k ≤ m) (hj : j < 2 ^ m) : down x m k j =
    if 2 ^ (m - k) ∣ j + 1 then ∑ i ∈ Finset.range (j + 1 - 2 ^ (m - k)), x i else up x m j := by
  induction k generalizing j with
  | zero =>
    have hiff : 2 ^ m ∣ j + 1 ↔ j + 1 = 2 ^ m :=
      ⟨fun h ↦ Nat.le_antisymm hj (Nat.le_of_dvd j.succ_pos h), fun h ↦ h ▸ Nat.dvd_refl _⟩
    rw [down, Nat.sub_zero]
    by_cases h : j + 1 = 2 ^ m
    · rw [if_pos h, if_pos (hiff.mpr h), h, Nat.sub_self, Finset.sum_range_zero]
    · rw [if_neg h, if_neg (mt hiff.mp h)]
  | succ k ih =>
    obtain ⟨s, hs⟩ : ∃ s, m - (k + 1) = s := ⟨_, rfl⟩
    have hs' : m - k = s + 1 := by omega
    have hpow : 2 ^ (s + 1) = 2 ^ s + 2 ^ s := by rw [Nat.pow_succ, Nat.mul_two]
    have hpos : 0 < 2 ^ s := Nat.two_pow_pos s
    have hdvd : 2 ^ s ∣ 2 ^ (s + 1) := Nat.pow_dvd_pow 2 s.le_succ
    rw [down, hs, hs']
    by_cases hbig : 2 ^ (s + 1) ∣ j + 1
    · -- the right half of a block: all before the block, and the left half
      have hle : 2 ^ (s + 1) ≤ j + 1 := Nat.le_of_dvd j.succ_pos hbig
      have hhalf : 2 ^ s ∣ j - 2 ^ s + 1 := by
        have := Nat.dvd_sub (hdvd.trans hbig) (Nat.dvd_refl (2 ^ s))
        rwa [show j + 1 - 2 ^ s = j - 2 ^ s + 1 by omega] at this
      have hnot : ¬2 ^ (s + 1) ∣ j - 2 ^ s + 1 := by
        intro h
        have := Nat.dvd_sub hbig h
        rw [show j + 1 - (j - 2 ^ s + 1) = 2 ^ s by omega] at this
        have := Nat.le_of_dvd hpos this
        omega
      rw [if_pos hbig, if_pos (hdvd.trans hbig), ih (by omega) hj, ih (by omega) (by omega), hs',
        if_pos hbig, if_neg hnot, up_of_not_dvd (by omega) hnot, up_of_dvd hhalf,
        show j - 2 ^ s + 1 = j + 1 - 2 ^ s by omega,
        show j + 1 - 2 ^ s - 2 ^ s = j + 1 - 2 ^ (s + 1) by omega, Finset.range_eq_Ico,
        Finset.range_eq_Ico]
      exact Finset.sum_Ico_consecutive x (by omega) (by omega)
    · rw [if_neg hbig]
      by_cases hsmall : 2 ^ s ∣ j + 1
      · -- the left half: what the right half had
        have hnext : 2 ^ (s + 1) ∣ j + 2 ^ s + 1 := by
          obtain ⟨c, hc⟩ := hsmall
          have hodd : c % 2 = 1 := by
            by_contra heven
            refine hbig ⟨c / 2, ?_⟩
            rw [hpow, ← Nat.mul_two, Nat.mul_assoc, hc]
            congr 1
            omega
          refine ⟨(c + 1) / 2, ?_⟩
          rw [show j + 2 ^ s + 1 = 2 ^ s * (c + 1) by rw [Nat.mul_add, ← hc]; omega, hpow,
            ← Nat.mul_two, Nat.mul_assoc]
          congr 1
          omega
        have hlt : j + 2 ^ s < 2 ^ m := by
          have hm : 2 ^ (s + 1) ∣ 2 ^ m := Nat.pow_dvd_pow 2 (by omega)
          by_contra hge
          have := Nat.dvd_sub hnext hm
          have := Nat.le_of_dvd (by omega) this
          omega
        rw [if_pos hsmall, if_pos hsmall, ih (by omega) hlt, hs', if_pos hnext,
          show j + 2 ^ s + 1 - 2 ^ (s + 1) = j + 1 - 2 ^ s by omega]
      · rw [if_neg hsmall, if_neg hsmall, ih (by omega) hj, hs', if_neg hbig]

/-- After both sweeps. -/
theorem down_last (hj : j < 2 ^ m) : down x m m j = ∑ i ∈ Finset.range j, x i := by
  rw [down_eq (Nat.le_refl m) hj, Nat.sub_self, Nat.pow_zero, if_pos (Nat.one_dvd _),
    Nat.add_sub_cancel]

/-- The sum of the array, which the sweep up leaves in the last entry. -/
theorem up_last : up x m (2 ^ m - 1) = ∑ i ∈ Finset.range (2 ^ m), x i := by
  have hpos : 0 < 2 ^ m := Nat.two_pow_pos m
  have hlast : 2 ^ m - 1 + 1 = 2 ^ m := by omega
  rw [up_of_dvd (hlast.symm ▸ Nat.dvd_refl _), hlast, Nat.sub_self, Finset.range_eq_Ico]

/-! ### Rounds

Half as many items as entries share the rounds: in round 0 the items load two entries each, then
come `q` rounds up and `q` rounds down.
-/

/-- The array at the beginning of round `t`, from round 1 on. -/
def sweep (x : Nat → M) (q t j : Nat) : M :=
  if t ≤ q then up x (t - 1) j else down x q (min (t - (q + 1)) q) j

/-- The item changes the entry in the round. -/
def Turn (q t it j : Nat) : Prop :=
  if t = 0 then j = 2 * it ∨ j = 2 * it + 1
  else if t ≤ q then it < 2 ^ (q - t) ∧ j + 1 = 2 ^ (t - 1) * (2 * it + 2)
  else if t ≤ 2 * q then it < 2 ^ (t - (q + 1)) ∧
    (j + 1 = 2 ^ (2 * q - t) * (2 * it + 1) ∨ j + 1 = 2 ^ (2 * q - t) * (2 * it + 2))
  else False

variable {q t it : Nat}

/-- Each entry has one owner in a turn. -/
theorem Turn.eq {it' : Nat} (h : Turn q t it j) (h' : Turn q t it' j) : it = it' := by
  have hpos (s : Nat) : 0 < 2 ^ s := Nat.two_pow_pos s
  rw [Turn] at h h'
  split at h
  · rw [if_pos ‹_›] at h'
    omega
  split at h
  · rw [if_neg ‹_›, if_pos ‹_›] at h'
    have := Nat.eq_of_mul_eq_mul_left (hpos _) (h.2.symm.trans h'.2)
    omega
  split at h
  · rw [if_neg ‹_›, if_neg ‹_›, if_pos ‹_›] at h'
    rcases h.2 with h | h
    · rcases h'.2 with h' | h'
      · have := Nat.eq_of_mul_eq_mul_left (hpos _) (h.symm.trans h')
        omega
      · have := Nat.eq_of_mul_eq_mul_left (hpos _) (h.symm.trans h')
        omega
    · rcases h'.2 with h' | h'
      · have := Nat.eq_of_mul_eq_mul_left (hpos _) (h.symm.trans h')
        omega
      · have := Nat.eq_of_mul_eq_mul_left (hpos _) (h.symm.trans h')
        omega
  · cases h

/-- Whose entry it is when the input is loaded. -/
theorem turn_load (j : Nat) : Turn q 0 (j / 2) j := by
  rw [Turn, if_pos rfl]
  omega

/-- Whose entry it is on the way up. -/
theorem turn_up (hs : s < q) (hit : it < 2 ^ (q - (s + 1))) (hj : j + 1 = 2 ^ s * (2 * it + 2)) :
    Turn q (s + 1) it j := by
  rw [Turn, if_neg s.succ_ne_zero, if_pos (Nat.succ_le_of_lt hs), Nat.add_sub_cancel]
  exact ⟨hit, hj⟩

/-- Whose entry it is on the way down. -/
theorem turn_down (hk : k < q) (hit : it < 2 ^ k)
    (hj : j + 1 = 2 ^ (q - (k + 1)) * (2 * it + 1) ∨ j + 1 = 2 ^ (q - (k + 1)) * (2 * it + 2)) :
    Turn q (q + 1 + k) it j := by
  rw [Turn, if_neg (by omega), if_neg (by omega), if_pos (by omega), Nat.add_sub_cancel_left,
    show 2 * q - (q + 1 + k) = q - (k + 1) by omega]
  exact ⟨hit, hj⟩

/-- After the rounds nobody has a turn. -/
theorem not_turn (ht : 2 * q < t) : ¬Turn q t it j := by
  rw [Turn, if_neg (by omega), if_neg (by omega), if_neg (by omega)]
  exact not_false

/-- In a round up, the last entries of the blocks have their turn. -/
theorem exists_turn_up (hs : s < q) (hj : j < 2 ^ q) (hdvd : 2 ^ (s + 1) ∣ j + 1) :
    ∃ it < 2 ^ (q - 1), Turn q (s + 1) it j := by
  obtain ⟨c, hc⟩ := hdvd
  have hcpos : 0 < c := Nat.pos_of_ne_zero fun h ↦ by simp [h] at hc
  have hle : c ≤ 2 ^ (q - (s + 1)) := by
    refine Nat.le_of_mul_le_mul_left ?_ (Nat.two_pow_pos (s + 1))
    rw [← hc, ← Nat.pow_add, show s + 1 + (q - (s + 1)) = q by omega]
    exact hj
  have hmono : 2 ^ (q - (s + 1)) ≤ 2 ^ (q - 1) := Nat.pow_le_pow_right Nat.two_pos (by omega)
  refine ⟨c - 1, by omega, turn_up hs (by omega) ?_⟩
  rw [hc, Nat.pow_succ, Nat.mul_assoc, show 2 * (c - 1) + 2 = 2 * c by omega]

/-- In a round down, the last entries of the half blocks have. -/
theorem exists_turn_down (hk : k < q) (hj : j < 2 ^ q) (hdvd : 2 ^ (q - (k + 1)) ∣ j + 1) :
    ∃ it < 2 ^ (q - 1), Turn q (q + 1 + k) it j := by
  obtain ⟨c, hc⟩ := hdvd
  have hcpos : 0 < c := Nat.pos_of_ne_zero fun h ↦ by simp [h] at hc
  have hle : c ≤ 2 ^ k * 2 := by
    rw [← Nat.pow_succ]
    refine Nat.le_of_mul_le_mul_left ?_ (Nat.two_pow_pos (q - (k + 1)))
    rw [← hc, ← Nat.pow_add, show q - (k + 1) + (k + 1) = q by omega]
    exact hj
  have hmono : 2 ^ k ≤ 2 ^ (q - 1) := Nat.pow_le_pow_right Nat.two_pos (by omega)
  refine ⟨(c - 1) / 2, by omega, turn_down hk (by omega) ?_⟩
  rcases Nat.mod_two_eq_zero_or_one c with heven | hodd
  · exact Or.inr (by rw [hc, show 2 * ((c - 1) / 2) + 2 = c by omega])
  · exact Or.inl (by rw [hc, show 2 * ((c - 1) / 2) + 1 = c by omega])

/-- The first turns are those up. -/
theorem sweep_up (hs : s < q) : sweep x q (s + 1) j = up x s j := by
  rw [sweep, if_pos (Nat.succ_le_of_lt hs), Nat.add_sub_cancel]

/-- The others are those down. -/
theorem sweep_down (hk : k ≤ q) : sweep x q (q + 1 + k) j = down x q k j := by
  rw [sweep, if_neg (by omega), Nat.add_sub_cancel_left, Nat.min_eq_left hk]

/-- An entry that has no turn stays. -/
theorem sweep_succ (ht : 0 < t) (hj : j < 2 ^ q) (hnone : ∀ it < 2 ^ (q - 1), ¬Turn q t it j) :
    sweep x q (t + 1) j = sweep x q t j := by
  rcases Nat.lt_or_ge q t with hdown | hup
  · obtain ⟨k, rfl⟩ : ∃ k, t = q + 1 + k := ⟨t - (q + 1), by omega⟩
    rcases Nat.lt_or_ge k q with hk | hk
    · have hnot : ¬2 ^ (q - (k + 1)) ∣ j + 1 := by
        intro hdvd
        obtain ⟨it, hit, hturn⟩ := exists_turn_down hk hj hdvd
        exact hnone it hit hturn
      have hnot' : ¬2 ^ (q - k) ∣ j + 1 :=
        fun hdvd ↦ hnot ((Nat.pow_dvd_pow 2 (by omega)).trans hdvd)
      rw [sweep_down hk.le, Nat.add_assoc, sweep_down hk, down, if_neg hnot', if_neg hnot]
    · rw [sweep, sweep, if_neg (by omega), if_neg (by omega), Nat.min_eq_right (by omega),
        Nat.min_eq_right (by omega)]
  · obtain ⟨s, rfl⟩ : ∃ s, t = s + 1 := ⟨t - 1, by omega⟩
    have hnot : ¬2 ^ (s + 1) ∣ j + 1 := by
      intro hdvd
      obtain ⟨it, hit, hturn⟩ := exists_turn_up hup hj hdvd
      exact hnone it hit hturn
    rw [sweep_up hup]
    rcases Nat.lt_or_ge (s + 1) q with hs | hs
    · rw [sweep_up hs, up, if_neg hnot]
    · obtain rfl : q = s + 1 := by omega
      rw [show s + 1 + 1 = s + 1 + 1 + 0 by rfl, sweep_down (Nat.zero_le _), down,
        if_neg fun h ↦ hnot (dvd_of_eq h.symm), up, if_neg hnot]

/-- The two entries of an item in a round on blocks of `2 ^ s`. -/
def left (s it : Nat) : Nat := 2 ^ s * (2 * it + 1) - 1

def right (s it : Nat) : Nat := 2 ^ s * (2 * it + 2) - 1

/-- The left end of a pair, counted from 1. -/
theorem left_succ (s it : Nat) : left s it + 1 = 2 ^ s * (2 * it + 1) :=
  Nat.sub_add_cancel (Nat.mul_pos (Nat.two_pow_pos s) (Nat.succ_pos _))

/-- The right end of a pair, counted from 1. -/
theorem right_succ (s it : Nat) : right s it + 1 = 2 ^ s * (2 * it + 2) :=
  Nat.sub_add_cancel (Nat.mul_pos (Nat.two_pow_pos s) (Nat.succ_pos _))

private theorem left_add (s it : Nat) : left s it + 2 ^ s = right s it := by
  have hleft := left_succ s it
  have hright := right_succ s it
  rw [show 2 * it + 2 = 2 * it + 1 + 1 from rfl, Nat.mul_succ] at hright
  omega

private theorem dvd_right (s it : Nat) : 2 ^ (s + 1) ∣ right s it + 1 := by
  refine ⟨it + 1, ?_⟩
  rw [right_succ, Nat.pow_succ, Nat.mul_assoc, Nat.mul_add 2 it 1]

private theorem not_dvd_left (s it : Nat) : ¬2 ^ (s + 1) ∣ left s it + 1 := by
  rw [left_succ, Nat.pow_succ]
  intro h
  have := Nat.dvd_of_mul_dvd_mul_left (Nat.two_pow_pos s) h
  omega

/-- Both ends of a pair are entries. -/
theorem right_lt (hs : s < q) (hit : it < 2 ^ (q - (s + 1))) : right s it < 2 ^ q := by
  have hle : 2 ^ s * (2 * it + 2) ≤ 2 ^ s * (2 * 2 ^ (q - (s + 1))) :=
    Nat.mul_le_mul_left _ (by omega)
  rw [← Nat.pow_succ', ← Nat.pow_add, show s + (q - (s + 1) + 1) = q by omega] at hle
  have := right_succ s it
  omega

/-- The left end comes first. -/
theorem left_lt_right (s it : Nat) : left s it < right s it := by
  have := left_add s it
  have := Nat.two_pow_pos s
  omega

/-- Nobody changes the left entry in a round up. -/
theorem not_turn_left (hs : s < q) {it' : Nat} : ¬Turn q (s + 1) it' (left s it) := by
  rw [Turn, if_neg s.succ_ne_zero, if_pos (Nat.succ_le_of_lt hs), Nat.add_sub_cancel, left_succ]
  rintro ⟨_, h⟩
  have := Nat.eq_of_mul_eq_mul_left (Nat.two_pow_pos s) h
  omega

/-- On the way up the right end gets the sum. -/
theorem up_right (s it : Nat) :
    up x (s + 1) (right s it) = up x s (right s it) + up x s (left s it) := by
  rw [up, if_pos (dvd_right s it), ← left_add, Nat.add_sub_cancel]

/-- On the way down the right end gets the sum. -/
theorem down_right (hk : k < m) (it : Nat) : down x m (k + 1) (right (m - (k + 1)) it) =
    down x m k (right (m - (k + 1)) it) + down x m k (left (m - (k + 1)) it) := by
  have hdvd := dvd_right (m - (k + 1)) it
  rw [show m - (k + 1) + 1 = m - k by omega] at hdvd
  rw [down, if_pos hdvd, ← left_add, Nat.add_sub_cancel]

/-- On the way down the left end gets what was at the right one. -/
theorem down_left (hk : k < m) (it : Nat) : down x m (k + 1) (left (m - (k + 1)) it) =
    down x m k (right (m - (k + 1)) it) := by
  have hnot := not_dvd_left (m - (k + 1)) it
  rw [show m - (k + 1) + 1 = m - k by omega] at hnot
  rw [down, if_neg hnot, if_pos ⟨_, left_succ _ it⟩, left_add]

/-! ### Sums in parts -/

/-- The sums of the parts before `k` and the prefix of its own part give the sum before `k`. -/
theorem sum_parts (x : Nat → M) (w k : Nat) :
    ∑ p ∈ Finset.range (k / w), ∑ i ∈ Finset.range w, x (p * w + i) +
      ∑ i ∈ Finset.range (k % w), x (k / w * w + i) = ∑ i ∈ Finset.range k, x i := by
  have hblocks (q : Nat) : ∑ p ∈ Finset.range q, ∑ i ∈ Finset.range w, x (p * w + i) =
      ∑ i ∈ Finset.range (q * w), x i := by
    induction q with
    | zero => simp
    | succ q ih => rw [Finset.sum_range_succ, ih, Nat.succ_mul, Finset.sum_range_add]
  rw [hblocks, ← Finset.sum_range_add, Nat.div_add_mod']

end Scan
