import QHGPU.Services.RadixHistogram

/-!
# Reordering

The kernel `reorder` moves every key to its position in the stable sort by the digit of the pass,
when it finds the positions of the first keys of the chunks in the histogram.
-/

namespace QHGPU.Radix

open WorkItems (Prog Launch Stays Plan load store barrier)
open CountingSort (rank unrank below equal equal_succ)

variable {geo : Geometry} {pass size : Nat} {m : Memory} {ig ir t : Nat}

/-- The number of keys. -/
abbrev total (geo : Geometry) (size : Nat) : Nat := geo.groups * geo.items * size

/-- What an item of `reorder` stores to. -/
def ReorderOwns (geo : Geometry) (pass size : Nat) (m : Memory) (ig : Nat) (l : Place) : Prop :=
  (∃ ir < radix, l = localCell geo.items ig ir) ∨
  ∃ k < size, l = .cell .outKeys (rank (digit pass m) (total geo size) (ig * size + k)) ∨
    l = .cell .outPermut (rank (digit pass m) (total geo size) (ig * size + k))

/-- The memory in the phases of `reorder`. -/
noncomputable def reorderSnap (geo : Geometry) (pass size : Nat) (m : Memory) (t : Nat) : Memory
  | .cache gr c =>
    if gr < geo.groups ∧ c < radix * geo.items then
      let ig := gr * geo.items + c % geo.items
      let ir := c / geo.items
      if t = 0 then m (.cache gr c)
      else if t = 1 then m (.cell .histograms (ir * (geo.groups * geo.items) + ig))
      else m (.cell .histograms (ir * (geo.groups * geo.items) + ig)) +
        chunkCount pass size m ig ir
    else m (.cache gr c)
  | .cell .outKeys p =>
    if 2 ≤ t ∧ p < total geo size then
      m (.cell .inKeys (unrank (digit pass m) (total geo size) p))
    else m (.cell .outKeys p)
  | .cell .outPermut p =>
    if 2 ≤ t ∧ p < total geo size then
      m (.cell .inPermut (unrank (digit pass m) (total geo size) p))
    else m (.cell .outPermut p)
  | l => m l

private theorem reorderSnap_localCell (hig : ig < geo.groups * geo.items) (hir : ir < radix) :
    reorderSnap geo pass size m t (localCell geo.items ig ir) =
      if t = 0 then m (localCell geo.items ig ir)
      else if t = 1 then m (.cell .histograms (ir * (geo.groups * geo.items) + ig))
      else m (.cell .histograms (ir * (geo.groups * geo.items) + ig)) +
        chunkCount pass size m ig ir := by
  have hitems : 0 < geo.items := Nat.pos_of_ne_zero fun h ↦ by simp [h] at hig
  have hmod := Nat.mod_lt ig hitems
  have hdiv : ig / geo.items < geo.groups := Nat.div_lt_of_lt_mul (Nat.mul_comm _ _ ▸ hig)
  rw [localCell, reorderSnap, if_pos ⟨hdiv, entry_lt hir hmod⟩, entry_div _ hmod, entry_mod _ hmod,
    Nat.div_add_mod']

private theorem reorderSnap_keys {i : Nat} (hi : i < total geo size) :
    reorderSnap geo pass size m 2 (.cell .outKeys (rank (digit pass m) (total geo size) i)) =
      m (.cell .inKeys i) := by
  rw [reorderSnap, if_pos ⟨Nat.le_refl 2, CountingSort.rank_lt hi⟩, CountingSort.unrank_rank hi]

private theorem reorderSnap_permut {i : Nat} (hi : i < total geo size) :
    reorderSnap geo pass size m 2 (.cell .outPermut (rank (digit pass m) (total geo size) i)) =
      m (.cell .inPermut i) := by
  rw [reorderSnap, if_pos ⟨Nat.le_refl 2, CountingSort.rank_lt hi⟩, CountingSort.unrank_rank hi]

/-- The owner of a position is the item of the chunk that the key comes from. -/
theorem ReorderOwns.eq {i j : Nat} {l : Place} (hi : i < geo.groups * geo.items)
    (hj : j < geo.groups * geo.items) (h : ReorderOwns geo pass size m i l)
    (h' : ReorderOwns geo pass size m j l) : i = j := by
  have hitems : 0 < geo.items := Nat.pos_of_ne_zero fun h ↦ by simp [h] at hi
  have hchunk {k k' : Nat} (hk : k < size) (hk' : k' < size)
      (h : rank (digit pass m) (total geo size) (i * size + k) =
        rank (digit pass m) (total geo size) (j * size + k')) : i = j := by
    have heq := CountingSort.eq_of_rank_eq (entry_lt hi hk) (entry_lt hj hk') h
    have hdiv := congrArg (· / size) heq
    rwa [entry_div _ hk, entry_div _ hk'] at hdiv
  rcases h with ⟨ir, _, rfl⟩ | ⟨k, hk, rfl | rfl⟩
  · rcases h' with ⟨jr, _, h⟩ | ⟨k', _, h | h⟩
    · exact (localCell_inj hitems h).1
    · cases h
    · cases h
  · rcases h' with ⟨jr, _, h⟩ | ⟨k', hk', h | h⟩
    · cases h
    · exact hchunk hk hk' (Place.cell.inj h).2
    · cases h
  · rcases h' with ⟨jr, _, h⟩ | ⟨k', hk', h | h⟩
    · cases h
    · cases h
    · exact hchunk hk hk' (Place.cell.inj h).2

/-- Every position is that of a key of some chunk. -/
theorem exists_position (d : Nat → Nat) {p : Nat} (hp : p < total geo size) :
    ∃ ig < geo.groups * geo.items, ∃ k < size, rank d (total geo size) (ig * size + k) = p := by
  obtain ⟨i, hi, rfl⟩ := CountingSort.exists_rank_eq d hp
  have hsize : 0 < size := Nat.pos_of_ne_zero fun h ↦ by simp [total, h] at hi
  refine ⟨i / size, Nat.div_lt_of_lt_mul (Nat.mul_comm _ _ ▸ hi), i % size, Nat.mod_lt i hsize, ?_⟩
  rw [Nat.div_add_mod']

private theorem not_reorderOwns {b : Buffer} {k : Nat} (h : b ≠ .outKeys) (h' : b ≠ .outPermut) :
    ¬ReorderOwns geo pass size m ig (.cell b k) := by
  simp [ReorderOwns, localCell, h, h']

private theorem reorderSnap_succ {l : Place}
    (hnone : ∀ ig : Fin (geo.groups * geo.items), ¬ReorderOwns geo pass size m ig l) :
    reorderSnap geo pass size m (t + 1) l = reorderSnap geo pass size m t l := by
  cases l with
  | cache gr c =>
    rw [reorderSnap, reorderSnap]
    by_cases hin : gr < geo.groups ∧ c < radix * geo.items
    · obtain ⟨ig, hig, ir, hir, heq⟩ := exists_localCell hin.1 hin.2
      exact absurd (Or.inl ⟨ir, hir, heq⟩) (hnone ⟨ig, hig⟩)
    · rw [if_neg hin, if_neg hin]
  | cell b p =>
    cases b with
    | outKeys =>
      rw [reorderSnap, reorderSnap]
      by_cases hin : p < total geo size
      · obtain ⟨ig, hig, k, hk, rfl⟩ := exists_position (digit pass m) hin
        exact absurd (Or.inr ⟨k, hk, Or.inl rfl⟩) (hnone ⟨ig, hig⟩)
      · rw [if_neg fun h ↦ hin h.2, if_neg fun h ↦ hin h.2]
    | outPermut =>
      rw [reorderSnap, reorderSnap]
      by_cases hin : p < total geo size
      · obtain ⟨ig, hig, k, hk, rfl⟩ := exists_position (digit pass m) hin
        exact absurd (Or.inr ⟨k, hk, Or.inr rfl⟩) (hnone ⟨ig, hig⟩)
      · rw [if_neg fun h ↦ hin h.2, if_neg fun h ↦ hin h.2]
    | _ => rfl

noncomputable def reorderPlan (geo : Geometry) (pass size : Nat) (m : Memory) :
    Plan (Fin (geo.groups * geo.items)) Nat Place Nat :=
  .fixed (NDRange.group ⟨geo.groups * geo.items, geo.items⟩)
    (fun ig ↦ ReorderOwns geo pass size m ig) (reorderSnap geo pass size m) 1
    (fun {i j _} hi hj ↦ Fin.ext (ReorderOwns.eq i.isLt j.isLt hi hj)) reorderSnap_succ

/-- The histogram holds the position of the first key of every digit in every chunk. -/
def Positions (geo : Geometry) (pass size : Nat) (m : Memory) : Prop :=
  ∀ ir < radix, ∀ ig < geo.groups * geo.items,
    m (.cell .histograms (ir * (geo.groups * geo.items) + ig)) =
      below (digit pass m) ir (total geo size) + equal (digit pass m) ir (ig * size)

/-- The main loop: after `k` keys of its chunk. -/
structure Moved (geo : Geometry) (pass size : Nat) (m : Memory) (ig k : Nat) (m' : Memory) :
    Prop where
  next : ∀ ir < radix, m' (localCell geo.items ig ir) =
    below (digit pass m) ir (total geo size) + equal (digit pass m) ir (ig * size + k)
  keys : ∀ j < k, m' (.cell .outKeys (rank (digit pass m) (total geo size) (ig * size + j))) =
    m (.cell .inKeys (ig * size + j))
  permut : ∀ j < k, m' (.cell .outPermut (rank (digit pass m) (total geo size) (ig * size + j))) =
    m (.cell .inPermut (ig * size + j))
  rest : ∀ l, ¬ReorderOwns geo pass size m ig l → m' l = reorderSnap geo pass size m 1 l

/-- One turn of the loop. -/
theorem Moved.step {k : Nat} {m' : Memory} (hig : ig < geo.groups * geo.items) (hk : k < size)
    (h : Moved geo pass size m ig k m') :
    let p := rank (digit pass m) (total geo size) (ig * size + k)
    Moved geo pass size m ig (k + 1)
      (Function.update (Function.update (Function.update m'
        (.cell .outKeys p) (m (.cell .inKeys (ig * size + k))))
        (.cell .outPermut p) (m (.cell .inPermut (ig * size + k))))
        (localCell geo.items ig (digit pass m (ig * size + k))) (p + 1)) := by
  intro p
  have hitems : 0 < geo.items := Nat.pos_of_ne_zero fun h ↦ by simp [h] at hig
  have hne {j : Nat} (hj : j < k) : rank (digit pass m) (total geo size) (ig * size + j) ≠ p := by
    intro heq
    have := CountingSort.eq_of_rank_eq (entry_lt hig (hj.trans hk)) (entry_lt hig hk) heq
    omega
  refine ⟨?_, ?_, ?_, ?_⟩
  · intro ir hir
    rw [← Nat.add_assoc, equal_succ]
    by_cases heq : digit pass m (ig * size + k) = ir
    · subst heq
      rw [Function.update_self, if_pos rfl]
      rfl
    · rw [Function.update_of_ne fun h ↦ heq (localCell_inj hitems h).2.symm, if_neg heq,
        Function.update_of_ne (by simp [localCell]), Function.update_of_ne (by simp [localCell]),
        h.next ir hir, Nat.add_zero]
  · intro j hj
    rw [Function.update_of_ne (by simp [localCell]), Function.update_of_ne (by simp)]
    rcases Nat.lt_succ_iff_lt_or_eq.mp hj with hlt | rfl
    · rw [Function.update_of_ne fun h ↦ hne hlt (Place.cell.inj h).2]
      exact h.keys j hlt
    · rw [Function.update_self]
  · intro j hj
    rw [Function.update_of_ne (by simp [localCell])]
    rcases Nat.lt_succ_iff_lt_or_eq.mp hj with hlt | rfl
    · rw [Function.update_of_ne fun h ↦ hne hlt (Place.cell.inj h).2,
        Function.update_of_ne (by simp)]
      exact h.permut j hlt
    · rw [Function.update_self]
  · intro l hl
    have hdigit : digit pass m (ig * size + k) < radix := shortkey_lt _ _
    rw [Function.update_of_ne fun h ↦ hl (Or.inl ⟨_, hdigit, h⟩),
      Function.update_of_ne fun h ↦ hl (Or.inr ⟨k, hk, Or.inr h⟩),
      Function.update_of_ne fun h ↦ hl (Or.inr ⟨k, hk, Or.inl h⟩)]
    exact h.rest l hl

private theorem keeps_reorder (hpos : Positions geo pass size m)
    (ig : Fin (geo.groups * geo.items)) :
    (reorderPlan geo pass size m).Keeps
      ((Command.reorder pass).InBuffers geo (total geo size)) ig
      ((reorderPlan geo pass size m).Done ig) 0 m
      (reorder pass (total geo size) ⟨geo.groups * geo.items, geo.items⟩ ig) := by
  have hitems := items_pos ig
  have hgroups : (NDRange.mk (geo.groups * geo.items) geo.items).numGroups = geo.groups :=
    Nat.mul_div_cancel _ hitems
  have hsize : total geo size / _ / geo.items = size := chunk_eq ig size
  rw [hgroups] at hsize
  have hcell (ir : Nat) : Place.cache (NDRange.group ⟨geo.groups * geo.items, geo.items⟩ ig)
      (ir * geo.items + NDRange.localId ⟨geo.groups * geo.items, geo.items⟩ ig) =
        localCell geo.items ig ir := rfl
  have hok (ir : Nat) (hir : ir < radix) : (Command.reorder pass).InBuffers geo
      (total geo size) (localCell geo.items ig ir) := entry_lt hir (Nat.mod_lt _ hitems)
  have hcells (t : Nat) (ir : Nat) (hir : ir < radix) :
      (reorderPlan geo pass size m).snap t (localCell geo.items ig ir) = _ :=
    reorderSnap_localCell ig.isLt hir
  rw [reorder, hgroups, hsize]
  simp only [hcell]
  rw [Plan.keeps_bind]
  refine (Plan.keeps_fill (localCell geo.items ig)
    (fun ir ↦ m (.cell .histograms (ir * (geo.groups * geo.items) + ig))) ?_ ?_).mono ?_
  · exact fun _ _ _ _ h ↦ (localCell_inj hitems h).2
  · intro ir hir m' hrest
    rw [histograms_index, WorkItems.load_bind, Plan.keeps_get,
      hrest _ fun _ _ ↦ by simp [localCell]]
    exact ⟨histograms_lt ig hir,
      Plan.sees_of_not_owns fun _ _ ↦ not_reorderOwns (by decide) (by decide),
      hok ir hir, Or.inl ⟨ir, hir, rfl⟩, rfl, rfl⟩
  rintro _ m₁ _ ⟨rfl, hcopy, hrest⟩
  rw [WorkItems.barrier_bind, Plan.keeps_sync]
  refine ⟨Nat.one_pos, ?_, ?_⟩
  · rintro l (⟨ir, hir, rfl⟩ | ⟨k, hk, rfl | rfl⟩)
    · rw [hcopy ir hir, hcells 1 ir hir]
      rfl
    · rw [hrest _ fun _ _ ↦ by simp [localCell]]
      rfl
    · rw [hrest _ fun _ _ ↦ by simp [localCell]]
      rfl
  refine (Plan.keeps_range (Moved geo pass size m ig) ⟨?_, ?_, ?_, fun _ _ ↦ rfl⟩ ?_).mono ?_
  · intro ir hir
    exact (hcells 1 ir hir).trans (hpos ir hir ig ig.isLt)
  · intro j hj
    exact absurd hj (Nat.not_lt_zero j)
  · intro j hj
    exact absurd hj (Nat.not_lt_zero j)
  · intro k hk m' hmoved
    have hlt : digit pass m (ig * size + k) < radix := shortkey_lt _ _
    have hkey : m' (.cell .inKeys (ig * size + k)) = m (.cell .inKeys (ig * size + k)) :=
      hmoved.rest _ (not_reorderOwns (by decide) (by decide))
    have hpermut : m' (.cell .inPermut (ig * size + k)) = m (.cell .inPermut (ig * size + k)) :=
      hmoved.rest _ (not_reorderOwns (by decide) (by decide))
    have hin : ig * size + k < total geo size := entry_lt ig.isLt hk
    rw [WorkItems.load_bind, Plan.keeps_get]
    refine ⟨hin, Plan.sees_of_not_owns fun _ _ ↦ not_reorderOwns (by decide) (by decide), ?_⟩
    rw [index_eq, hkey]
    have hnext : m' (localCell geo.items ig (shortkey pass (m (.cell .inKeys (ig * size + k))))) =
        rank (digit pass m) (total geo size) (ig * size + k) := hmoved.next _ hlt
    rw [WorkItems.load_bind, Plan.keeps_get, hnext]
    have hp := CountingSort.rank_lt (d := digit pass m) hin
    refine ⟨hok _ hlt, Plan.sees_of_owns (Or.inl ⟨_, hlt, rfl⟩), ?_⟩
    refine ⟨hp, Or.inr ⟨k, hk, Or.inl rfl⟩, ?_⟩
    refine ⟨hin, Plan.sees_of_not_owns fun _ _ ↦ not_reorderOwns (by decide) (by decide), ?_⟩
    rw [index_eq, Function.update_of_ne (by simp), hpermut]
    refine ⟨hp, Or.inr ⟨k, hk, Or.inr rfl⟩, hok _ hlt, Or.inl ⟨_, hlt, rfl⟩, rfl, ?_⟩
    exact hmoved.step ig.isLt hk
  · rintro _ m₂ _ ⟨rfl, hmoved⟩
    refine ⟨rfl, ?_⟩
    rintro l (⟨ir, hir, rfl⟩ | ⟨k, hk, rfl | rfl⟩)
    · rw [hmoved.next ir hir, hcells 2 ir hir, if_neg (by decide), if_neg (by decide),
        hpos ir hir ig ig.isLt, Nat.add_assoc, equal, Nat.count_add]
      rfl
    · exact (hmoved.keys k hk).trans (reorderSnap_keys (entry_lt ig.isLt hk)).symm
    · exact (hmoved.permut k hk).trans (reorderSnap_permut (entry_lt ig.isLt hk)).symm

/-- `reorder` and the swap after it move every key, and its entry of the permutation, to its
position. -/
theorem runs_reorder {post : Memory → Prop} (hpos : Positions geo pass size m) (hpost : ∀ m',
    (∀ i < total geo size, m' (.cell .inKeys (rank (digit pass m) (total geo size) i)) =
      m (.cell .inKeys i)) →
    (∀ i < total geo size, m' (.cell .inPermut (rank (digit pass m) (total geo size) i)) =
      m (.cell .inPermut i)) → post m') :
    (Command.reorder pass).Runs geo (total geo size) m post := by
  have hstart : (reorderPlan geo pass size m).snap 0 = m := by
    funext l
    cases l with
    | cache gr c =>
      change reorderSnap geo pass size m 0 (.cache gr c) = _
      rw [reorderSnap]
      dsimp only
      rw [if_pos rfl, ite_self]
    | cell b k =>
      cases b with
      | outKeys =>
        change reorderSnap geo pass size m 0 (.cell .outKeys k) = _
        rw [reorderSnap, if_neg fun h ↦ absurd h.1 (by decide)]
      | outPermut =>
        change reorderSnap geo pass size m 0 (.cell .outPermut k) = _
        rw [reorderSnap, if_neg fun h ↦ absurd h.1 (by decide)]
      | _ => rfl
  refine .of_plan (reorderPlan geo pass size m) rfl hstart (fun hi hj ↦ ?_) (keeps_reorder hpos)
    (hpost _ ?_ ?_)
  · exact Fin.ext (ReorderOwns.eq (Fin.isLt _) (Fin.isLt _) hi hj)
  · exact fun i hi ↦ reorderSnap_keys hi
  · exact fun i hi ↦ reorderSnap_permut hi

end QHGPU.Radix
