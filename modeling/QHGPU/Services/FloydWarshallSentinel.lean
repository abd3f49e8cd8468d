import QHGPU.Library.Levels
import QHGPU.Services.FloydWarshallWalks

/-!
# The weight for no edge

`kgenerate_adjacency_matrix`, `src/test_module/floyd_warshall/floyd_warshall_module.c:19–40`,
puts `__INT_MAX` where there is no edge, and the loops add it up like any other weight.
-/

namespace QHGPU.FloydWarshall

open WalkSums (Walk Free closure)

variable {n i j : Nat} {m : Nat → Weight} {rate : Weight} {random : Nat → Nat → Weight}

/-! ### The generator -/

/-- `temp`, `src/test_module/floyd_warshall/floyd_warshall_module.c:33–37`, from the bytes that
`get_random_bytes` gives. -/
def edgeWeight (rate random : Weight) : Weight :=
  let temp := random % 10000 + 1
  if rate * 100 < temp then BitVec.ofNat 32 intMax else temp

/-- `kgenerate_adjacency_matrix`, `src/test_module/floyd_warshall/floyd_warshall_module.c:27–55`,
with the bytes for each pair of nodes. -/
def kgenerateAdjacencyMatrix (random : Nat → Nat → Weight) (mat : Nat → Weight) (matSize : Nat)
    (rate : Weight) : Nat → Weight :=
  (List.range matSize).foldl (fun mat i ↦
    (List.range' (i + 1) (matSize - (i + 1))).foldl (fun mat j ↦
      let temp := edgeWeight rate (random i j)
      Function.update (Function.update mat (cpuIndex matSize i j) temp) (cpuIndex matSize j i) temp)
      (Function.update mat (cpuIndex matSize i i) 0)) mat

/-! ### Soundness -/

/-- Two different nodes with a weight that is not the one for no edge. -/
def RealEdge (m : Nat → Weight) (n : Nat) (i j : Fin n) : Prop := i ≠ j ∧ weight m n i j ≠ intMax

/-- Some way leads along real edges. -/
def Connected (m : Nat → Weight) (n : Nat) (i j : Fin n) : Prop :=
  ∃ c, Walk (RealEdge m n) (weight m n) i j c

/-- `kfloyd_warshall_cpu` leaves an entry below `__INT_MAX` for the pairs of nodes that real edges
connect, and no others, and it is then the length of the shortest way along them. -/
structure SentinelSound (n : Nat) (m : Nat → Weight) : Prop where
  lt_iff : ∀ i j, weight (kfloydWarshallCpu m n) n i j < intMax ↔ Connected m n i j
  least : ∀ i j, Connected m n i j → IsLeast {c | Walk (RealEdge m n) (weight m n) i j c}
    (weight (kfloydWarshallCpu m n) n i j)

/-- Connected nodes are connected by a way shorter than `__INT_MAX`. -/
def ShortWays (n : Nat) (m : Nat → Weight) : Prop :=
  ∀ i j, Connected m n i j → ∃ c < intMax, Walk (RealEdge m n) (weight m n) i j c

/-- A way shorter than `__INT_MAX` has only real edges. -/
theorem walk_realEdge (hdiag : ∀ i, weight m n i i = 0) {i j : Fin n} {c : Nat}
    (h : Walk Free (weight m n) i j c) (hc : c < intMax) :
    Walk (RealEdge m n) (weight m n) i j c := by
  apply h.of_lt _ hc
  intro i j
  by_cases hij : i = j
  · subst hij
    exact Or.inr (Or.inl ⟨rfl, hdiag i⟩)
  · by_cases hmax : weight m n i j = intMax
    · exact Or.inr (Or.inr hmax.ge)
    · exact Or.inl ⟨hij, hmax⟩

private theorem sentinelSound_iff_shortWays (hsize : n * n ≤ 2 ^ 32) (hm : Bounded n m)
    (hdiag : ∀ i, weight m n i i = 0) : SentinelSound n m ↔ ShortWays n m := by
  have hresult (i j : Fin n) : IsLeast {c | Walk Free (weight m n) i j c}
      (weight (kfloydWarshallCpu m n) n i j) := by
    rw [weight_kfloydWarshallCpu hsize hm]
    exact WalkSums.isLeast_closure List.mem_finRange hdiag i j
  have hfree {i j : Fin n} {c : Nat} (h : Walk (RealEdge m n) (weight m n) i j c) :
      weight (kfloydWarshallCpu m n) n i j ≤ c :=
    (hresult i j).2 (h.mono fun _ _ _ ↦ trivial)
  constructor
  · intro h i j hconnected
    exact ⟨_, (h.lt_iff i j).mpr hconnected, (h.least i j hconnected).1⟩
  · intro h
    have hlt (i j : Fin n) (hconnected : Connected m n i j) :
        weight (kfloydWarshallCpu m n) n i j < intMax := by
      obtain ⟨c, hc, hwalk⟩ := h i j hconnected
      exact (hfree hwalk).trans_lt hc
    constructor
    · intro i j
      constructor
      · exact fun hc ↦ ⟨_, walk_realEdge hdiag (hresult i j).1 hc⟩
      · exact hlt i j
    · intro i j hconnected
      constructor
      · exact walk_realEdge hdiag (hresult i j).1 (hlt i j hconnected)
      · exact fun c hc ↦ hfree hc

/-! ### Generated matrices -/

/-- When the steps of a loop set a cell to `v` or leave it, it is `v` after some step sets it. -/
theorem foldl_apply {ι : Type} {f : (Nat → Weight) → ι → Nat → Weight} {xs : List ι} {idx : Nat}
    {v : Weight} (P : ι → Prop) [DecidablePred P]
    (hf : ∀ m, ∀ x ∈ xs, f m x idx = if P x then v else m idx) (m : Nat → Weight) :
    xs.foldl f m idx = if ∃ x ∈ xs, P x then v else m idx := by
  induction xs generalizing m with
  | nil => simp
  | cons x xs ih =>
    obtain ⟨hx, hxs⟩ : (∀ m, f m x idx = if P x then v else m idx) ∧
        ∀ m, ∀ x ∈ xs, f m x idx = if P x then v else m idx :=
      ⟨fun m ↦ hf m x List.mem_cons_self, fun m y hy ↦ hf m y (List.mem_cons_of_mem x hy)⟩
    rw [List.foldl_cons, ih hxs, hx]
    simp only [List.mem_cons, exists_eq_or_imp]
    by_cases hP : P x
    · simp [hP]
    · simp [hP]

private theorem eq_cpuIndex_iff (hsize : n * n ≤ 2 ^ 32) (hj : j < n) {a b : Nat} (ha : a < n)
    (hb : b < n) : i * n + j = cpuIndex n a b ↔ i = a ∧ j = b := by
  rw [cpuIndex_of_size hsize ha hb]
  constructor
  · intro h
    constructor
    · rw [← cell_div (i := i) hj, h, cell_div hb]
    · rw [← cell_mod (i := i) hj, h, cell_mod hb]
  · rintro ⟨rfl, rfl⟩
    rfl

section

variable (hsize : n * n ≤ 2 ^ 32) (hi : i < n) (hj : j < n)

include hsize hi hj

/-- One turn of the inner loop sets both directions of an edge. -/
theorem mirrored_cell (mat : Nat → Weight) {a b : Nat} (hab : a < b) (hb : b < n) :
    Function.update (Function.update mat (cpuIndex n a b) (edgeWeight rate (random a b)))
        (cpuIndex n b a) (edgeWeight rate (random a b)) (i * n + j) =
      if min i j = a ∧ max i j = b then edgeWeight rate (random (min i j) (max i j))
      else mat (i * n + j) := by
  have ha : a < n := hab.trans hb
  by_cases hswapped : i = b ∧ j = a
  · obtain ⟨rfl, rfl⟩ := hswapped
    rw [(eq_cpuIndex_iff hsize hj hi hj).mpr ⟨rfl, rfl⟩, Function.update_self,
      min_eq_right hab.le, max_eq_left hab.le, if_pos ⟨rfl, rfl⟩]
  · rw [Function.update_of_ne (mt (eq_cpuIndex_iff hsize hj hb ha).mp hswapped)]
    by_cases hpair : i = a ∧ j = b
    · obtain ⟨rfl, rfl⟩ := hpair
      rw [(eq_cpuIndex_iff hsize hj hi hj).mpr ⟨rfl, rfl⟩, Function.update_self,
        min_eq_left hab.le, max_eq_right hab.le, if_pos ⟨rfl, rfl⟩]
    · rw [Function.update_of_ne (mt (eq_cpuIndex_iff hsize hj ha hb).mp hpair),
        if_neg (by omega)]

/-- One turn of the outer loop, for the pairs of nodes whose smaller one is `a`. -/
theorem row_cell (mat : Nat → Weight) {a : Nat} (ha : a < n) :
    (List.range' (a + 1) (n - (a + 1))).foldl (fun mat b ↦
        Function.update (Function.update mat (cpuIndex n a b) (edgeWeight rate (random a b)))
          (cpuIndex n b a) (edgeWeight rate (random a b)))
        (Function.update mat (cpuIndex n a a) 0) (i * n + j) =
      if min i j = a then
        if i = j then 0 else edgeWeight rate (random (min i j) (max i j))
      else mat (i * n + j) := by
  have hturn (mat : Nat → Weight) (b : Nat) (hb : b ∈ List.range' (a + 1) (n - (a + 1))) :
      Function.update (Function.update mat (cpuIndex n a b) (edgeWeight rate (random a b)))
        (cpuIndex n b a) (edgeWeight rate (random a b)) (i * n + j) =
      if min i j = a ∧ max i j = b then edgeWeight rate (random (min i j) (max i j))
      else mat (i * n + j) := by
    rw [List.mem_range'_1] at hb
    exact mirrored_cell hsize hi hj mat (by omega) (by omega)
  rw [foldl_apply _ hturn]
  by_cases hij : i = j
  · subst hij
    have hnone : ¬∃ b ∈ List.range' (a + 1) (n - (a + 1)), min i i = a ∧ max i i = b := by
      rintro ⟨b, hb, hmin, hmax⟩
      rw [List.mem_range'_1] at hb
      omega
    rw [if_neg hnone, min_self, if_pos rfl]
    by_cases hia : i = a
    · subst hia
      rw [(eq_cpuIndex_iff hsize hi hi hi).mpr ⟨rfl, rfl⟩, Function.update_self, if_pos rfl]
    · rw [if_neg hia, Function.update_of_ne]
      exact mt (eq_cpuIndex_iff hsize hi ha ha).mp fun h ↦ hia h.1
  · rw [if_neg hij]
    by_cases hmin : min i j = a
    · rw [if_pos ⟨max i j, List.mem_range'_1.mpr (by omega), hmin, rfl⟩, if_pos hmin]
    · rw [if_neg (by rintro ⟨_, _, h, _⟩; exact hmin h), if_neg hmin, Function.update_of_ne]
      exact mt (eq_cpuIndex_iff hsize hj ha ha).mp (by omega)

/-- A generated matrix: zeros in the diagonal, and one weight for both directions of an edge. -/
theorem kgenerateAdjacencyMatrix_cell (mat : Nat → Weight) :
    kgenerateAdjacencyMatrix random mat n rate (i * n + j) =
      if i = j then 0 else edgeWeight rate (random (min i j) (max i j)) := by
  rw [kgenerateAdjacencyMatrix, foldl_apply (fun a ↦ min i j = a) fun mat a ha ↦
    row_cell hsize hi hj mat (List.mem_range.mp ha), if_pos]
  exact ⟨min i j, List.mem_range.mpr (by omega), rfl⟩

end

private theorem toNat_edgeWeight (rate random : Weight) :
    (edgeWeight rate random).toNat = intMax ∨
      (edgeWeight rate random).toNat ≤ (rate * 100).toNat ∧
      (edgeWeight rate random).toNat ≤ 10000 := by
  rw [edgeWeight]
  split
  · exact Or.inl rfl
  · next hle =>
    refine Or.inr ⟨Nat.le_of_not_lt fun h ↦ hle (BitVec.lt_def.mpr h), ?_⟩
    have hmod : (random % 10000).toNat = random.toNat % 10000 := BitVec.toNat_umod
    have hlt := Nat.mod_lt random.toNat (by decide : 0 < 10000)
    rw [BitVec.toNat_add_of_lt, hmod]
    · exact hlt
    · rw [hmod]
      exact (Nat.add_lt_add_right hlt _).trans (by decide)

section

variable (hsize : n * n ≤ 2 ^ 32) (mat : Nat → Weight)

include hsize

private theorem weight_generated (i j : Fin n) :
    weight (kgenerateAdjacencyMatrix random mat n rate) n i j =
      if i = j then 0 else (edgeWeight rate (random (min i j) (max i j))).toNat := by
  rw [weight, kgenerateAdjacencyMatrix_cell hsize i.isLt j.isLt mat, apply_ite BitVec.toNat]
  exact if_congr Fin.ext_iff.symm rfl rfl

private theorem bounded_generated : Bounded n (kgenerateAdjacencyMatrix random mat n rate) := by
  intro i j
  rw [weight_generated hsize]
  split
  · exact Nat.zero_le _
  · rcases toNat_edgeWeight rate (random (min i j) (max i j)) with h | ⟨_, h⟩
    · exact h.le
    · exact h.trans (by decide)

private theorem weight_generated_self (i : Fin n) :
    weight (kgenerateAdjacencyMatrix random mat n rate) n i i = 0 := by
  rw [weight_generated hsize, if_pos rfl]

private theorem weight_le_of_realEdge {i j : Fin n}
    (h : RealEdge (kgenerateAdjacencyMatrix random mat n rate) n i j) :
    weight (kgenerateAdjacencyMatrix random mat n rate) n i j ≤ (rate * 100).toNat := by
  obtain ⟨hne, hreal⟩ := h
  rw [weight_generated hsize, if_neg hne] at hreal ⊢
  exact ((toNat_edgeWeight _ _).resolve_left hreal).1

end

/-- The sizes of the module. -/
theorem mul_self_le (hn : n ≤ 0x400) : n * n ≤ 2 ^ 32 := (Nat.mul_le_mul hn hn).trans (by decide)

/-- The sentinel is sound for a generated matrix exactly when no two connected nodes are as far
apart as the weight for no edge. -/
theorem sentinelSound_iff (hn : n ≤ 0x400) (random : Nat → Nat → Weight) (mat : Nat → Weight)
    (rate : Weight) : SentinelSound n (kgenerateAdjacencyMatrix random mat n rate) ↔
      ShortWays n (kgenerateAdjacencyMatrix random mat n rate) :=
  sentinelSound_iff_shortWays (mul_self_le hn) (bounded_generated (mul_self_le hn) mat)
    (weight_generated_self (mul_self_le hn) mat)

/-- Seven nodes at rate 50, with all random bytes 0. -/
theorem sentinelSound_seven :
    SentinelSound 7 (kgenerateAdjacencyMatrix (fun _ _ ↦ 0) (fun _ ↦ 0) 7 50) ↔
      ShortWays 7 (kgenerateAdjacencyMatrix (fun _ _ ↦ 0) (fun _ ↦ 0) 7 50) :=
  sentinelSound_iff (by decide) (fun _ _ ↦ 0) (fun _ ↦ 0) 50

/-! ### Bounds -/

/-- A way along some edges can be taken edge by edge. -/
theorem levelsWalk_of_walk {E : Fin n → Fin n → Prop} {w : Fin n → Fin n → Nat} {s i j : Fin n}
    {c k : Nat} (h : Walk E w i j c) (hs : Levels.Walk E s k i) : ∃ k, Levels.Walk E s k j := by
  induction h generalizing k with
  | nil i => exact ⟨k, hs⟩
  | cons hiv _ ih => exact ih (.snoc hs hiv)

private theorem walk_of_levelsWalk {E : Fin n → Fin n → Prop} {w : Fin n → Fin n → Nat}
    {s i : Fin n}
    {k top : Nat} (htop : ∀ i j, E i j → w i j ≤ top) (h : Levels.Walk E s k i) :
    ∃ c ≤ k * top, Walk E w s i c := by
  induction h with
  | nil => exact ⟨0, Nat.zero_le _, .nil s⟩
  | @snoc k u v _ huv ih =>
    obtain ⟨c, hc, hwalk⟩ := ih
    refine ⟨c + w u v, ?_, hwalk.append (.single huv)⟩
    rw [Nat.succ_mul]
    exact Nat.add_le_add hc (htop u v huv)

/-- A way needs no more edges than there are other nodes. -/
theorem shortWays_of_lt {top : Nat} (htop : ∀ i j, RealEdge m n i j → weight m n i j ≤ top)
    (hlt : (n - 1) * top < intMax) : ShortWays n m := by
  rintro i j ⟨c, hwalk⟩
  obtain ⟨k, hk⟩ := levelsWalk_of_walk hwalk .nil
  obtain ⟨d, _, hdist⟩ := hk.exists_dist
  have hd : d < n := by
    have hlevels (l : Nat) (hl : l ≤ d) :
        ∃ v ∈ Finset.univ, Levels.Dist (RealEdge m n) i l v := by
      obtain ⟨v, hv⟩ := hdist.exists_level hl
      exact ⟨v, Finset.mem_univ v, hv⟩
    have hcard := Levels.lt_of_levels hlevels
    rwa [Finset.card_univ, Fintype.card_fin] at hcard
  obtain ⟨c, hc, hwalk⟩ := walk_of_levelsWalk htop hdist.walk
  have hle : d * top ≤ (n - 1) * top := Nat.mul_le_mul_right top (by omega)
  exact ⟨c, (hc.trans hle).trans_lt hlt, hwalk⟩

/-- Small or sparse matrices: 1023 edges of weight 9700 are still shorter. -/
theorem shortWays_generated (hn : n ≤ 0x400) (mat : Nat → Weight)
    (hlt : (n - 1) * (rate * 100).toNat < intMax) :
    ShortWays n (kgenerateAdjacencyMatrix random mat n rate) :=
  shortWays_of_lt (fun _ _ ↦ weight_le_of_realEdge (mul_self_le hn) mat) hlt

/-! ### A long chain -/

/-- The bytes that make a chain: at rate 99 neighbours get the weight 9900, and no others an
edge. -/
def chain (i j : Nat) : Weight := if j = i + 1 then 9899 else 9999

private theorem weight_chain (mat : Nat → Weight) {i j : Fin 0x400} (hne : i ≠ j) :
    weight (kgenerateAdjacencyMatrix chain mat 0x400 99) 0x400 i j =
      if i.val + 1 = j ∨ j.val + 1 = i then 9900 else intMax := by
  have hnear : (edgeWeight 99 9899).toNat = 9900 := by decide
  have hfar : (edgeWeight 99 9999).toNat = intMax := by decide
  have hne' : i.val ≠ j := fun h ↦ hne (Fin.ext h)
  rw [weight_generated (by decide), if_neg hne, chain]
  by_cases h : max i.val j = min i.val j + 1
  · rw [if_pos h, if_pos (by omega), hnear]
  · rw [if_neg h, if_neg (by omega), hfar]

/-- The ends of the chain are connected, and further apart than the weight for no edge. -/
theorem not_sentinelSound_chain : ¬∀ n ≤ 0x400, ∀ rate : Weight, rate ≤ 100 →
    ∀ (random : Nat → Nat → Weight) (mat : Nat → Weight),
      SentinelSound n (kgenerateAdjacencyMatrix random mat n rate) := by
  intro hall
  have hsound := hall 0x400 (Nat.le_refl _) 99 (by decide) chain fun _ ↦ 0
  rw [sentinelSound_iff_shortWays (by decide) (bounded_generated (by decide) _)
    (weight_generated_self (by decide) _)] at hsound
  generalize hm : kgenerateAdjacencyMatrix chain (fun _ ↦ 0) 0x400 99 = m at hsound
  have hweight {i j : Fin 0x400} (hne : i ≠ j) : weight m 0x400 i j =
      if i.val + 1 = j ∨ j.val + 1 = i then 9900 else intMax := hm ▸ weight_chain _ hne
  have hconnected (k : Nat) (hk : k < 0x400) : Connected m 0x400 ⟨0, by decide⟩ ⟨k, hk⟩ := by
    induction k with
    | zero => exact ⟨0, .nil _⟩
    | succ k ih =>
      obtain ⟨c, hwalk⟩ := ih (Nat.lt_of_succ_lt hk)
      have hne : (⟨k, Nat.lt_of_succ_lt hk⟩ : Fin 0x400) ≠ ⟨k + 1, hk⟩ := by
        simp only [ne_eq, Fin.mk.injEq]
        omega
      have hedge : RealEdge m 0x400 ⟨k, Nat.lt_of_succ_lt hk⟩ ⟨k + 1, hk⟩ := by
        refine ⟨hne, ?_⟩
        rw [hweight hne, if_pos (Or.inl rfl)]
        decide
      exact ⟨_, hwalk.append (.single hedge)⟩
  have hlong {i j : Fin 0x400} {c : Nat} (h : Walk (RealEdge m 0x400) (weight m 0x400) i j c) :
      9900 * j.val ≤ 9900 * i.val + c := by
    induction h with
    | nil i => exact Nat.le_refl _
    | @cons i v j c hedge _ ih =>
      obtain ⟨hne, hreal⟩ := hedge
      rw [hweight hne] at hreal ⊢
      split at hreal
      · next hnear =>
        rw [if_pos hnear]
        omega
      · exact absurd rfl hreal
  obtain ⟨c, hc, hwalk⟩ := hsound _ _ (hconnected 1023 (by decide))
  have hge := hlong hwalk
  rw [intMax] at hc
  simp only at hge
  omega

end QHGPU.FloydWarshall
