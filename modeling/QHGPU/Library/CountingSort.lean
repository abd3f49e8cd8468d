import Mathlib.Algebra.BigOperators.Group.Finset.Basic
import Mathlib.Algebra.BigOperators.Intervals
import Mathlib.Data.Fintype.EquivFin
import Mathlib.Data.Nat.Count

/-!
# Stable counting sort

The position to which a stable sort by digits moves an entry, how it is computed from a table of
digit counts of chunks, and how stable passes by one digit after the other sort by all of them.
-/

namespace CountingSort

variable {κ ι : Type} [LinearOrder κ]

/-- How many of the first `n` entries have a digit below `a`. -/
def below (d : Nat → κ) (a : κ) (n : Nat) : Nat := Nat.count (fun j ↦ d j < a) n

/-- How many of the first `n` entries have the digit `a`. -/
def equal (d : Nat → κ) (a : κ) (n : Nat) : Nat := Nat.count (fun j ↦ d j = a) n

/-- Where the stable sort of `n` entries by `d` puts entry `i`: after the smaller ones, and after
the equal ones before it. -/
def rank (d : Nat → κ) (n i : Nat) : Nat := below d (d i) n + equal d (d i) i

variable {d : Nat → κ} {n i j : Nat}

private theorem count_le_eq (d : Nat → κ) (a : κ) (n : Nat) :
    Nat.count (fun j ↦ d j ≤ a) n = below d a n + equal d a n := by
  induction n with
  | zero => rfl
  | succ n ih =>
    rw [below, equal, Nat.count_succ, Nat.count_succ, Nat.count_succ, ih, below, equal]
    rcases lt_trichotomy (d n) a with h | h | h
    · rw [if_pos h.le, if_pos h, if_neg h.ne]
      omega
    · rw [if_pos h.le, if_neg h.not_lt, if_pos h]
      omega
    · rw [if_neg h.not_ge, if_neg h.not_gt, if_neg h.ne']
      rfl

/-- One entry more. -/
theorem equal_succ (d : Nat → κ) (a : κ) (i : Nat) :
    equal d a (i + 1) = equal d a i + if d i = a then 1 else 0 := Nat.count_succ _ _

private theorem rank_lt_count (hi : i < n) : rank d n i < Nat.count (fun j ↦ d j ≤ d i) n := by
  rw [count_le_eq, rank]
  have hlt : equal d (d i) i < equal d (d i) n :=
    Nat.count_strict_mono (p := fun j ↦ d j = d i) rfl hi
  omega

private theorem count_congr {p q : Nat → Prop} [DecidablePred p] [DecidablePred q]
    (h : ∀ j < n, p j ↔ q j) : Nat.count p n = Nat.count q n :=
  Nat.le_antisymm (Nat.count_mono_left fun j hj ↦ (h j hj).mp)
    (Nat.count_mono_left fun j hj ↦ (h j hj).mpr)

/-- Only the digits of the entries matter. -/
theorem rank_congr {d' : Nat → κ} (h : ∀ j < n, d j = d' j) (hi : i < n) :
    rank d n i = rank d' n i := by
  rw [rank, rank, below, below, equal, equal, h i hi]
  congr 1
  · apply count_congr
    intro j hj
    rw [h j hj]
  · apply count_congr
    intro j hj
    rw [h j (hj.trans hi)]

/-- Ranks are positions. -/
theorem rank_lt (hi : i < n) : rank d n i < n := (rank_lt_count hi).trans_le (Nat.count_le _)

/-- The order of the positions: by digit, and by place among equal ones. -/
theorem rank_lt_rank (hi : i < n) (hij : d i < d j ∨ d i = d j ∧ i < j) :
    rank d n i < rank d n j := by
  rcases hij with hlt | ⟨heq, hij⟩
  · have hle : Nat.count (fun k ↦ d k ≤ d i) n ≤ below d (d j) n :=
      Nat.count_mono_left fun k _ hk ↦ lt_of_le_of_lt hk hlt
    have := rank_lt_count (d := d) hi
    rw [rank.eq_1 d n j]
    omega
  · have hlt : equal d (d j) i < equal d (d j) j :=
      Nat.count_strict_mono (p := fun k ↦ d k = d j) heq hij
    rw [rank, rank, heq]
    omega

/-- Conversely, the order of the positions tells that of digit and place. -/
theorem lt_of_rank_lt (hj : j < n) (h : rank d n i < rank d n j) :
    d i < d j ∨ d i = d j ∧ i < j := by
  by_contra hnot
  rcases lt_trichotomy (d i) (d j) with hlt | heq | hlt
  · exact hnot (Or.inl hlt)
  · rcases lt_trichotomy i j with hij | rfl | hij
    · exact hnot (Or.inr ⟨heq, hij⟩)
    · exact absurd h (lt_irrefl _)
    · exact absurd h (rank_lt_rank hj (Or.inr ⟨heq.symm, hij⟩)).asymm
  · exact absurd h (rank_lt_rank hj (Or.inl hlt)).asymm

/-- No two entries have the same rank. -/
theorem eq_of_rank_eq (hi : i < n) (hj : j < n) (h : rank d n i = rank d n j) : i = j := by
  rcases lt_trichotomy (d i) (d j) with hlt | heq | hlt
  · exact absurd h (rank_lt_rank hi (Or.inl hlt)).ne
  · rcases lt_trichotomy i j with hij | rfl | hij
    · exact absurd h (rank_lt_rank hi (Or.inr ⟨heq, hij⟩)).ne
    · rfl
    · exact absurd h (rank_lt_rank hj (Or.inr ⟨heq.symm, hij⟩)).ne'
  · exact absurd h (rank_lt_rank hj (Or.inl hlt)).ne'

/-- Every position is taken. -/
theorem exists_rank_eq (d : Nat → κ) {p : Nat} (hp : p < n) : ∃ i < n, rank d n i = p := by
  let f (i : Fin n) : Fin n := ⟨rank d n i, rank_lt i.isLt⟩
  have hinj : Function.Injective f := by
    intro i j h
    exact Fin.ext (eq_of_rank_eq i.isLt j.isLt (congrArg Fin.val h))
  obtain ⟨i, hi⟩ := Finite.surjective_of_injective hinj ⟨p, hp⟩
  exact ⟨i, i.isLt, congrArg Fin.val hi⟩

open Classical in
/-- The entry that comes to a position. -/
noncomputable def unrank (d : Nat → κ) (n p : Nat) : Nat :=
  if h : ∃ i < n, rank d n i = p then h.choose else p

/-- The entry with the rank of `i` is `i`. -/
theorem unrank_rank (hi : i < n) : unrank d n (rank d n i) = i := by
  have hex : ∃ j < n, rank d n j = rank d n i := ⟨i, hi, rfl⟩
  rw [unrank, dif_pos hex]
  exact eq_of_rank_eq hex.choose_spec.1 hi hex.choose_spec.2

/-! ### The table of counts -/

/-- Keys below `r + 1` are below `r` or equal to it. -/
theorem below_succ (d : Nat → Nat) (r n : Nat) : below d (r + 1) n = below d r n + equal d r n := by
  rw [← count_le_eq, below]
  simp only [Nat.lt_succ_iff]

section

variable {digit : Nat → Nat} {g s : Nat}

/-- The cells of the first `c` columns in row `r`. -/
theorem sum_row (r : Nat) {a : Nat} (hstart : ∑ k ∈ Finset.range (r * g),
    Nat.count (fun j ↦ digit (k % g * s + j) = k / g) s = a) {c : Nat} (hc : c ≤ g) :
    ∑ k ∈ Finset.range (r * g + c), Nat.count (fun j ↦ digit (k % g * s + j) = k / g) s =
      a + equal digit r (c * s) := by
  induction c with
  | zero => simpa [equal] using hstart
  | succ c ih =>
    have hmod : (r * g + c) % g = c := by
      rw [Nat.mul_add_mod_self_right, Nat.mod_eq_of_lt hc]
    have hdiv : (r * g + c) / g = r := by
      rw [Nat.mul_comm, Nat.mul_add_div (by omega), Nat.div_eq_of_lt hc, Nat.add_zero]
    rw [← Nat.add_assoc, Finset.sum_range_succ, ih (by omega), hmod, hdiv, Nat.add_mul, Nat.one_mul,
      Nat.add_assoc, equal, equal, Nat.count_add]

/-- The table has a row for each digit and a column for each of the `g` chunks of `s` entries.
The sum of all cells before a cell is the position of the first entry of that digit in that
chunk. -/
theorem sum_table (r : Nat) {c : Nat} (hc : c ≤ g) :
    ∑ k ∈ Finset.range (r * g + c), Nat.count (fun j ↦ digit (k % g * s + j) = k / g) s =
      below digit r (g * s) + equal digit r (c * s) := by
  induction r generalizing c with
  | zero =>
    have hnone : below digit 0 (g * s) = 0 :=
      Nat.count_iff_forall_not.mpr fun _ _ ↦ Nat.not_lt_zero _
    refine sum_row 0 ?_ hc
    rw [hnone]
    simp
  | succ r ih =>
    refine sum_row (r + 1) ?_ hc
    rw [Nat.add_mul, Nat.one_mul, ih (Nat.le_refl g), below_succ]

end

/-! ### Digit by digit -/

/-- `perm` lists the first `n` entries in the order of `f`, equal ones in their own order. -/
structure Sorts (f : Nat → κ) (n : Nat) (perm : Nat → Nat) : Prop where
  lt : ∀ p < n, perm p < n
  onto : ∀ i < n, ∃ p < n, perm p = i
  order : ∀ p q, p < q → q < n →
    f (perm p) < f (perm q) ∨ f (perm p) = f (perm q) ∧ perm p < perm q

variable [LinearOrder ι] {f : Nat → ι} {g : Nat → κ} {h : Nat → ι}

/-- A stable pass by a further digit. -/
theorem Sorts.pass {perm perm' : Nat → Nat} (hsorts : Sorts f n perm)
    (hperm : ∀ p < n, perm' (rank (fun j ↦ g (perm j)) n p) = perm p)
    (hlt : ∀ i < n, ∀ j < n, g i < g j → h i < h j)
    (heq : ∀ i < n, ∀ j < n, g i = g j → (f i < f j → h i < h j) ∧ (f i = f j → h i = h j)) :
    Sorts h n perm' := by
  have hfrom (q : Nat) (hq : q < n) : ∃ p < n, rank (fun j ↦ g (perm j)) n p = q ∧
      perm' q = perm p := by
    obtain ⟨p, hp, rfl⟩ := exists_rank_eq (fun j ↦ g (perm j)) hq
    exact ⟨p, hp, rfl, hperm p hp⟩
  refine ⟨?_, ?_, ?_⟩
  · intro q hq
    obtain ⟨p, hp, _, hpq⟩ := hfrom q hq
    rw [hpq]
    exact hsorts.lt p hp
  · intro i hi
    obtain ⟨p, hp, rfl⟩ := hsorts.onto i hi
    exact ⟨_, rank_lt hp, hperm p hp⟩
  · intro q q' hqq' hq'
    obtain ⟨p, hp, rfl, hpq⟩ := hfrom q (hqq'.trans hq')
    obtain ⟨p', hp', rfl, hpq'⟩ := hfrom q' hq'
    rw [hpq, hpq']
    rcases lt_of_rank_lt hp' hqq' with hdigit | ⟨hdigit, hplace⟩
    · exact Or.inl (hlt _ (hsorts.lt p hp) _ (hsorts.lt p' hp') hdigit)
    · have := heq _ (hsorts.lt p hp) _ (hsorts.lt p' hp') hdigit
      exact (hsorts.order p p' hplace hp').imp this.1 fun h ↦ ⟨this.2 h.1, h.2⟩

/-- A stable pass by the next digit of a number, after those that its remainder by `a` shows. -/
theorem Sorts.digit {key : Nat → Nat} {a b : Nat} {perm perm' : Nat → Nat} (ha : 0 < a)
    (hsorts : Sorts (fun i ↦ key i % a) n perm)
    (hperm : ∀ p < n, perm' (rank (fun j ↦ key (perm j) / a % b) n p) = perm p) :
    Sorts (fun i ↦ key i % (a * b)) n perm' := by
  refine hsorts.pass (g := fun i ↦ key i / a % b) hperm ?_ ?_
  · intro i _ j _ hlt
    have hmod := Nat.mod_lt (key i) ha
    have hle := Nat.mul_le_mul_left a (Nat.succ_le_of_lt hlt)
    rw [Nat.mod_mul, Nat.mod_mul]
    rw [Nat.mul_succ] at hle
    omega
  · intro i _ j _ heq
    rw [Nat.mod_mul, Nat.mod_mul, heq]
    omega

/-- Entries that are all equal are sorted as they stand. -/
theorem sorts_self {f : Nat → κ} {perm : Nat → Nat} (hperm : ∀ p < n, perm p = p)
    (heq : ∀ p q, f p = f q) : Sorts f n perm := by
  constructor
  · intro p hp
    rwa [hperm p hp]
  · exact fun i hi ↦ ⟨i, hi, hperm i hi⟩
  · intro p q hpq hq
    rw [hperm p (hpq.trans hq), hperm q hq]
    exact Or.inr ⟨heq p q, hpq⟩

/-- The entries in the order of their positions. -/
theorem sorts_unrank (d : Nat → κ) (n : Nat) : Sorts d n (unrank d n) := by
  have hself : Sorts (fun _ ↦ d 0) n fun p ↦ p := sorts_self (fun _ _ ↦ rfl) fun _ _ ↦ rfl
  apply hself.pass (g := d)
  · exact fun p hp ↦ unrank_rank hp
  · exact fun i _ j _ hlt ↦ hlt
  · exact fun i _ j _ heq ↦ ⟨fun h ↦ absurd h (lt_irrefl _), fun _ ↦ heq⟩

/-! ### Rearrangements -/

/-- A map of the first `n` numbers onto themselves lists each of them once. -/
theorem map_range_perm {perm : Nat → Nat} (honto : ∀ i < n, ∃ p < n, perm p = i) :
    ((List.range n).map perm).Perm (List.range n) := by
  have hsub : List.range n ⊆ (List.range n).map perm := by
    intro i hi
    obtain ⟨p, hp, hpi⟩ := honto i (List.mem_range.mp hi)
    exact List.mem_map.mpr ⟨p, List.mem_range.mpr hp, hpi⟩
  apply ((List.nodup_range.subperm hsub).perm_of_length_le _).symm
  rw [List.length_map]

/-- A list whose entries are those of another in the order `perm`. -/
theorem perm_of_getElem? {α : Type} {xs ys : List α} {perm : Nat → Nat}
    (hlen : ys.length = xs.length) (honto : ∀ i < xs.length, ∃ p < xs.length, perm p = i)
    (hget : ∀ p < xs.length, ys[p]? = xs[perm p]?) : ys.Perm xs := by
  have hsome (zs : List α) : zs.map some = (List.range zs.length).map fun p ↦ zs[p]? := by
    apply List.ext_getElem
    · simp
    · intro p hp hp'
      simp at hp
      simp [hp]
  have hperm : ((List.range xs.length).map fun p ↦ ys[p]?).Perm
      ((List.range xs.length).map fun p ↦ xs[p]?) := by
    have hmap : (List.range xs.length).map (fun p ↦ ys[p]?) =
        ((List.range xs.length).map perm).map fun p ↦ xs[p]? := by
      rw [List.map_map]
      exact List.map_congr_left fun p hp ↦ hget p (List.mem_range.mp hp)
    rw [hmap]
    exact (map_range_perm honto).map _
  apply (List.map_perm_map_iff (Option.some_injective α)).mp
  rw [hsome, hsome, hlen]
  exact hperm

end CountingSort
