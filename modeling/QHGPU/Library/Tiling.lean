import Mathlib.Data.List.Range
import Mathlib.Logic.ExistsUnique

/-!
# Consecutive spans

Spans of an array, each given by its start and its length, that lie one behind the other.
-/

namespace Tiling

/-- The spans lead from `a` to `b` without gap or overlap, each with 1 to `limit` entries. -/
def Tiles (limit : Nat) : Nat → List (Nat × Nat) → Nat → Prop
  | a, [], b => a = b
  | a, (start, len) :: spans, b =>
    start = a ∧ 0 < len ∧ len ≤ limit ∧ Tiles limit (a + len) spans b

/-- Entry `w` lies in span number `k`. -/
def Covers (spans : List (Nat × Nat)) (k w : Nat) : Prop :=
  ∃ start len, spans[k]? = some (start, len) ∧ start ≤ w ∧ w < start + len

variable {limit a b c w : Nat} {spans : List (Nat × Nat)}

/-- A further span at the end. -/
theorem Tiles.snoc (h : Tiles limit a spans b) {len : Nat} (hpos : 0 < len)
    (hlimit : len ≤ limit) : Tiles limit a (spans ++ [(b, len)]) (b + len) := by
  induction spans generalizing a with
  | nil =>
    obtain rfl : a = b := h
    exact ⟨rfl, hpos, hlimit, rfl⟩
  | cons span spans ih =>
    obtain ⟨hstart, hspan, hle, hrest⟩ := h
    exact ⟨hstart, hspan, hle, ih hrest⟩

private theorem Tiles.le (h : Tiles limit a spans b) : a ≤ b := by
  induction spans generalizing a with
  | nil => exact Nat.le_of_eq h
  | cons span spans ih =>
    have := ih h.2.2.2
    omega

/-- Every span has 1 to `limit` entries, all of them between `a` and `b`. -/
theorem Tiles.bounds (h : Tiles limit a spans b) {start len : Nat} (hmem : (start, len) ∈ spans) :
    a ≤ start ∧ start + len ≤ b ∧ 0 < len ∧ len ≤ limit := by
  induction spans generalizing a with
  | nil => cases hmem
  | cons span spans ih =>
    obtain ⟨hstart, hspan, hle, hrest⟩ := h
    cases List.mem_cons.mp hmem with
    | inl heq =>
      obtain rfl := heq
      have := Tiles.le hrest
      dsimp only at hstart hspan hle this
      omega
    | inr hin =>
      have := ih hrest hin
      omega

/-- Every entry between `a` and `b` lies in exactly one span. -/
theorem Tiles.covers_unique (h : Tiles limit a spans b) (hlo : a ≤ w) (hhi : w < b) :
    ∃! k, Covers spans k w := by
  induction spans generalizing a with
  | nil =>
    have : a = b := h
    omega
  | cons span spans ih =>
    obtain ⟨hstart, hspan, hle, hrest⟩ := h
    have later {k : Nat} (hk : Covers spans k w) : a + span.2 ≤ w := by
      obtain ⟨start, len, hget, hlow, _⟩ := hk
      have := (Tiles.bounds hrest (List.mem_of_getElem? hget)).1
      omega
    by_cases hfirst : w < a + span.2
    · refine ⟨0, ⟨span.1, span.2, rfl, by omega, by omega⟩, ?_⟩
      rintro (_ | k) hk
      · rfl
      · have := later (k := k) hk
        omega
    · obtain ⟨k, hk, huniq⟩ := ih hrest (by omega)
      refine ⟨k + 1, hk, ?_⟩
      rintro (_ | j) hj
      · obtain ⟨start, len, hget, hlow, hhigh⟩ := hj
        obtain rfl := Option.some.inj hget
        omega
      · rw [huniq j hj]

end Tiling
