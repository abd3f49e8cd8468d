import Mathlib.Data.List.Count
import Mathlib.Data.List.Perm.Lattice

/-!
# Matching answers by key

Items wait in a list until an answer comes. An answer names its item by a key only, and goes
to the first waiting item with that key. When items of different owners have different keys
and every owner has at least as many items waiting as answers are owed to it, an answer for
an owner goes to an item of that owner. When the answers owed are exactly those for the items
that wait, every answer finds an item.
-/

namespace Correlation

universe u v w

variable {τ : Type u} {ρ : Type v} {κ : Type w} [DecidableEq τ] [DecidableEq ρ] [DecidableEq κ]
  {owner : τ → ρ} {key : ρ → κ} {owed owed' : List ρ} {waiting : List τ} {r : ρ} {t : τ}

/-- Live items with the same key have the same owner. -/
def Apart (owner : τ → ρ) (key : ρ → κ) (live : τ → Prop) : Prop :=
  ∀ t t', live t → live t' → key (owner t) = key (owner t') → owner t = owner t'

/-- Each owner has at least as many items waiting as answers are owed to it. -/
def Covered (owner : τ → ρ) (owed : List ρ) (waiting : List τ) : Prop :=
  ∀ r, owed.count r ≤ (waiting.map owner).count r

omit [DecidableEq τ] [DecidableEq ρ] [DecidableEq κ] in
/-- Keys stay apart while live items keep their owners and these their keys. -/
theorem Apart.congr {live live' : τ → Prop} {owner' : τ → ρ} {key' : ρ → κ}
    (ha : Apart owner key live) (hlive : ∀ t, live' t → live t)
    (howner : ∀ t, live' t → owner' t = owner t)
    (hkey : ∀ t, live' t → key' (owner t) = key (owner t)) : Apart owner' key' live' := by
  intro t t' ht ht' heq
  rw [howner t ht, howner t' ht'] at heq ⊢
  rw [hkey t ht, hkey t' ht'] at heq
  exact ha t t' (hlive t ht) (hlive t' ht') heq

omit [DecidableEq τ] [DecidableEq ρ] [DecidableEq κ] in
/-- One more live item keeps the keys apart when no live item of another owner has its key. -/
theorem Apart.insert {live : τ → Prop} {u : τ} (ha : Apart owner key live)
    (hnew : ∀ t, live t → key (owner t) = key (owner u) → owner t = owner u) :
    Apart owner key fun t ↦ live t ∨ t = u := by
  intro t t' ht ht' heq
  rcases ht with ht | rfl
  · rcases ht' with ht' | rfl
    · exact ha t t' ht ht' heq
    · exact hnew t ht heq
  · rcases ht' with ht' | rfl
    · exact (hnew t' ht' heq.symm).symm
    · rfl

omit [DecidableEq τ] in
/-- An answer finds an item of the owner it is for. -/
theorem find_owner (hc : Covered owner owed waiting) (ha : Apart owner key (· ∈ waiting))
    (hr : r ∈ owed) :
    ∃ t, waiting.find? (fun t ↦ key (owner t) = key r) = some t ∧ owner t = r := by
  have hpos : 0 < (waiting.map owner).count r :=
    Nat.lt_of_lt_of_le (List.count_pos_iff.mpr hr) (hc r)
  obtain ⟨t, ht, howner⟩ := List.mem_map.mp (List.count_pos_iff.mp hpos)
  cases hfind : waiting.find? fun t ↦ key (owner t) = key r with
  | none =>
    have hnot := List.find?_eq_none.mp hfind t ht
    rw [howner] at hnot
    exact absurd (decide_eq_true rfl) hnot
  | some t' =>
    refine ⟨t', rfl, ?_⟩
    have hsome := List.find?_some hfind
    have hkey : key (owner t') = key r := of_decide_eq_true hsome
    rw [← howner] at hkey ⊢
    exact ha t' t (List.mem_of_find?_eq_some hfind) ht hkey

omit [DecidableEq τ] in
/-- Nothing is owed to anybody before anything was delivered. -/
theorem covered_nil (owner : τ → ρ) (waiting : List τ) : Covered owner [] waiting :=
  fun _ ↦ Nat.zero_le _

omit [DecidableEq τ] in
/-- Only the owners of the waiting items matter. -/
theorem Covered.congr {owner' : τ → ρ} (hc : Covered owner owed waiting)
    (h : ∀ t ∈ waiting, owner' t = owner t) : Covered owner' owed waiting := by
  intro r
  rw [List.map_congr_left h]
  exact hc r

omit [DecidableEq τ] in
/-- Fewer answers may be owed, in another order. -/
theorem Covered.mono (hc : Covered owner owed waiting) (h : owed'.Subperm owed) :
    Covered owner owed' waiting := fun r ↦ Nat.le_trans (h.count_le r) (hc r)

omit [DecidableEq τ] in
/-- An item is delivered, and an answer to its owner is owed. -/
theorem Covered.deliver (hc : Covered owner owed waiting) (t : τ) :
    Covered owner (owed ++ [owner t]) (waiting ++ [t]) := by
  intro r
  rw [List.map_append, List.count_append, List.count_append]
  exact Nat.add_le_add_right (hc r) _

/-- An owed answer is given, and one item of its owner no longer waits. -/
theorem Covered.answer (hc : Covered owner owed waiting) (hr : owner t ∈ owed)
    (ht : t ∈ waiting) : Covered owner (owed.erase (owner t)) (waiting.erase t) := by
  intro r
  have howed := (List.perm_cons_erase hr).count_eq r
  have hwait := ((List.perm_cons_erase ht).map owner).count_eq r
  have hle := hc r
  rw [howed, hwait, List.map_cons, List.count_cons, List.count_cons] at hle
  exact Nat.le_of_add_le_add_right hle

/-! ### Every answer finds an item -/

variable {keyOf : τ → κ} {keys keys' : List κ} {c : κ}

/-- The keys of the waiting items are those that answers are owed for, each as often. -/
def Matched (keyOf : τ → κ) (keys : List κ) (waiting : List τ) : Prop :=
  (waiting.map keyOf).Perm keys

omit [DecidableEq τ] [DecidableEq κ] in
/-- The order of the answers does not matter. -/
theorem Matched.perm (hm : Matched keyOf keys waiting) (h : keys.Perm keys') :
    Matched keyOf keys' waiting := List.Perm.trans hm h

omit [DecidableEq τ] [DecidableEq κ] in
/-- Only the keys of the waiting items matter. -/
theorem Matched.congr {keyOf' : τ → κ} (hm : Matched keyOf keys waiting)
    (h : ∀ t ∈ waiting, keyOf' t = keyOf t) : Matched keyOf' keys waiting := by
  unfold Matched
  rw [List.map_congr_left h]
  exact hm

omit [DecidableEq τ] [DecidableEq κ] in
/-- An item is delivered, and an answer with its key is owed. -/
theorem Matched.deliver (hm : Matched keyOf keys waiting) (t : τ) :
    Matched keyOf (keys ++ [keyOf t]) (waiting ++ [t]) := by
  unfold Matched
  rw [List.map_append]
  exact List.Perm.append_right _ hm

omit [DecidableEq τ] in
/-- An answer that is owed finds an item. -/
theorem Matched.find (hm : Matched keyOf keys waiting) (hc : c ∈ keys) :
    ∃ t, waiting.find? (fun t ↦ keyOf t = c) = some t ∧ keyOf t = c := by
  obtain ⟨t, ht, hkey⟩ := List.mem_map.mp (List.Perm.mem_iff hm |>.mpr hc)
  cases hfind : waiting.find? fun t ↦ keyOf t = c with
  | none =>
    have hnot := List.find?_eq_none.mp hfind t ht
    exact absurd (decide_eq_true hkey) hnot
  | some u =>
    have hsome := List.find?_some hfind
    exact ⟨u, rfl, of_decide_eq_true hsome⟩

/-- The item that was found no longer waits, and the answer is no longer owed. -/
theorem Matched.answer (hm : Matched keyOf keys waiting) (ht : t ∈ waiting) :
    Matched keyOf (keys.erase (keyOf t)) (waiting.erase t) := by
  have hcons : (keyOf t :: (waiting.erase t).map keyOf).Perm keys :=
    ((List.perm_cons_erase ht).map keyOf).symm.trans hm
  have hmem : keyOf t ∈ keys := hcons.subset List.mem_cons_self
  exact (hcons.trans (List.perm_cons_erase hmem)).cons_inv

end Correlation
