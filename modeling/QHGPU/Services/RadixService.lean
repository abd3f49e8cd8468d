import Mathlib.Data.List.GetD
import Mathlib.Data.Nat.Prime.Basic
import QHGPU.Services.RadixPasses

/-!
# The radix service

`radix_launch` of `libsrv_radix.c`: it loads the keys of the request, sorts them and reads them
back.
-/

namespace QHGPU.Radix

/-! ### Sorted keys -/

/-- The keys and the identity permutation on the device. -/
structure Loaded (keys : List Nat) (m : Memory) : Prop where
  inKeys : ∀ i (hi : i < keys.length), m (.cell .inKeys i) = keys[i]
  permut : ∀ i < keys.length, m (.cell .inPermut i) = i

/-- The keys in ascending order, equal ones in the order of the input, and the permutation that
brought them there. -/
structure IsSorted (keys : List Nat) (m : Memory) : Prop where
  ascending : ∀ p q, p < q → q < keys.length → m (.cell .inKeys p) ≤ m (.cell .inKeys q)
  stable : ∀ p q, p < q → q < keys.length → m (.cell .inKeys p) = m (.cell .inKeys q) →
    m (.cell .inPermut p) < m (.cell .inPermut q)
  onto : ∀ i < keys.length, ∃ p < keys.length, m (.cell .inPermut p) = i
  inKeys : ∀ p < keys.length, ∃ h : m (.cell .inPermut p) < keys.length,
    m (.cell .inKeys p) = keys[m (.cell .inPermut p)]

/-- The two writes of `init_cl_radix_sort`,
`src/test_module/radix_sort/lib/cl_radix_sort.c:212–254`. -/
def load (hKeys : List Nat) (m : Memory) : Memory
  | .cell .inKeys i => hKeys.getD i (m (.cell .inKeys i))
  | .cell .inPermut i => if i < hKeys.length then i else m (.cell .inPermut i)
  | l => m l

/-- The two writes load the keys. -/
theorem load_loaded (hKeys : List Nat) (m : Memory) : Loaded hKeys (load hKeys m) := by
  constructor
  · intro i hi
    exact List.getD_eq_getElem _ _ hi
  · intro i hi
    rw [load, if_pos hi]

variable {geo : Geometry} {keys : List Nat} {m : Memory}

private theorem SortedBy.isSorted (hkeys : ∀ key ∈ keys, key < 2 ^ totalbits)
    (h : SortedBy passes keys.length (fun i ↦ keys.getD i 0) m) : IsSorted keys m := by
  have hget (i : Nat) (hi : i < keys.length) : keys.getD i 0 = keys[i] :=
    List.getD_eq_getElem _ _ hi
  have hmod (p : Nat) (hp : p < keys.length) :
      keys.getD (m (.cell .inPermut p)) 0 % 2 ^ (passes * bits) = m (.cell .inKeys p) := by
    have hlt := h.order.lt p hp
    rw [h.keys p hp]
    apply Nat.mod_eq_of_lt
    rw [hget _ hlt]
    exact hkeys _ (List.getElem_mem hlt)
  have horder (p q : Nat) (hpq : p < q) (hq : q < keys.length) := h.order.order p q hpq hq
  refine ⟨?_, ?_, h.order.onto, ?_⟩
  · intro p q hpq hq
    have := horder p q hpq hq
    rw [hmod p (hpq.trans hq), hmod q hq] at this
    omega
  · intro p q hpq hq heq
    have := horder p q hpq hq
    rw [hmod p (hpq.trans hq), hmod q hq] at this
    omega
  · intro p hp
    have hlt := h.order.lt p hp
    exact ⟨hlt, (h.keys p hp).trans (hget _ hlt)⟩

private theorem Loaded.sortedBy (h : Loaded keys m) :
    SortedBy 0 keys.length (fun i ↦ keys.getD i 0) m := by
  refine ⟨CountingSort.sorts_self h.permut ?_, ?_⟩
  · intro p q
    rw [Nat.zero_mul, Nat.pow_zero, Nat.mod_one, Nat.mod_one]
  · intro p hp
    rw [h.permut p hp, h.inKeys p hp, List.getD_eq_getElem _ _ hp]

/-! ### Geometries -/

/-- At least two parts, of at least two entries each. -/
theorem exists_powers (hgroups : ∃ a, geo.groups = 2 ^ a) (hitems : ∃ b, geo.items = 2 ^ b)
    (hdvd : geo.histosplit ∣ radix * geo.groups * geo.items) (hparts : 2 ≤ geo.histosplit)
    (hentries : 2 * geo.histosplit ≤ radix * geo.groups * geo.items) :
    ∃ e e', Powers geo e e' := by
  obtain ⟨a, ha⟩ := hgroups
  obtain ⟨b, hb⟩ := hitems
  have hsize : radix * geo.groups * geo.items = 2 ^ (bits + a + b) := by
    rw [ha, hb, radix, Nat.one_shiftLeft, Nat.pow_add, Nat.pow_add]
  have hgroups : 0 < geo.groups := ha ▸ Nat.two_pow_pos a
  have hitems : 0 < geo.items := hb ▸ Nat.two_pow_pos b
  rw [hsize] at hdvd hentries
  obtain ⟨c, hc, hsplit⟩ := (Nat.dvd_prime_pow Nat.prime_two).mp hdvd
  have hpos : 0 < geo.histosplit := by omega
  obtain ⟨e', rfl⟩ : ∃ e', c = e' + 1 :=
    Nat.exists_eq_succ_of_ne_zero fun h ↦ by simp [hsplit, h] at hparts
  have hlt : e' + 1 < bits + a + b := by
    rw [hsplit, ← Nat.pow_succ'] at hentries
    exact (Nat.pow_le_pow_iff_right Nat.one_lt_two).mp hentries
  refine ⟨bits + a + b - (e' + 1) - 1, e', ⟨⟨?_, hpos⟩, hsplit, hgroups, hitems⟩⟩
  rw [← Nat.mul_assoc, hsize, hsplit, ← Nat.pow_succ', ← Nat.pow_add]
  congr 1
  omega

/-- `cl_radix_sort` for parameters given as powers of two. -/
theorem clRadixSort_of_powers {e e' size : Nat} {post : Memory → Prop} (hgeo : Powers geo e e')
    (hlen : keys.length = total geo size) (hkeys : ∀ key ∈ keys, key < 2 ^ totalbits)
    (hm : Loaded keys m) (hpost : ∀ m', IsSorted keys m' → post m') :
    ClRadixSort geo ⟨keys.length, keys.length⟩ post m := by
  have hloaded := hm.sortedBy
  rw [hlen] at hloaded
  refine ⟨Nat.le_refl _, Nat.le_refl _, ?_⟩
  refine completes_passes hgeo ⟨hlen, Nat.le_refl _⟩ (fun m' hsorted ↦ hpost m' ?_) hloaded
  rw [← hlen] at hsorted
  exact hsorted.isSorted hkeys

/-- `cl_radix_sort` on the loaded keys: all launches complete within the buffers, whatever the
order of their steps, and the keys end up sorted. -/
theorem clRadixSort_sorts (hgroups : ∃ a, geo.groups = 2 ^ a) (hitems : ∃ b, geo.items = 2 ^ b)
    (hdvd : geo.histosplit ∣ radix * geo.groups * geo.items) (hparts : 2 ≤ geo.histosplit)
    (hentries : 2 * geo.histosplit ≤ radix * geo.groups * geo.items)
    (hlen : geo.groups * geo.items ∣ keys.length) (hkeys : ∀ key ∈ keys, key < 2 ^ totalbits)
    (hm : Loaded keys m) :
    ClRadixSort geo ⟨keys.length, keys.length⟩ (IsSorted keys) m := by
  obtain ⟨e, e', hgeo⟩ := exists_powers hgroups hitems hdvd hparts hentries
  obtain ⟨size, hsize⟩ := hlen
  exact clRadixSort_of_powers hgeo hsize hkeys hm fun _ h ↦ h

/-- Two groups of two items sort eight keys with repetitions. -/
theorem clRadixSort_sorts_eight :
    ClRadixSort ⟨2, 2, 4⟩ ⟨[700, 3, 90000, 3, 0, 700, 64, 3].length,
      [700, 3, 90000, 3, 0, 700, 64, 3].length⟩ (IsSorted [700, 3, 90000, 3, 0, 700, 64, 3])
      (load [700, 3, 90000, 3, 0, 700, 64, 3] fun _ ↦ 0) := by
  apply clRadixSort_sorts
  · exact ⟨1, rfl⟩
  · exact ⟨1, rfl⟩
  · decide
  · decide
  · decide
  · decide
  · decide
  · exact load_loaded _ _

/-- With one part there is no pair of sums to scan: the launch of `cl_radix_scan_histogram` for
`d_globsum` has no work-items. -/
theorem not_completes_of_one_part {n : Nat} {post : Memory → Prop} {pass : Nat} {cs : List Command} :
    ¬Completes ⟨1, 1, 1⟩ ⟨n, n⟩ post
      (.histogram pass :: .scanHistogram :: .scanGlobsum :: cs) m := by
  rintro ⟨_, _, hruns⟩
  have hhistogram := hruns m fun _ _ ↦ rfl
  obtain ⟨m₁, hlaunch⟩ := hhistogram.ends
  obtain ⟨_, _, hruns⟩ := hhistogram.post m₁ hlaunch
  have hscan := hruns m₁ fun _ _ ↦ rfl
  obtain ⟨m₂, hlaunch⟩ := hscan.ends
  obtain ⟨_, haccepted, _⟩ := hscan.post m₂ hlaunch
  revert haccepted
  decide

/-- One part is not enough, although all assertions hold. -/
theorem not_sorts_one_part : ¬∀ (geo : Geometry) (keys : List Nat) (m : Memory),
    (∃ a, geo.groups = 2 ^ a) → (∃ b, geo.items = 2 ^ b) →
    geo.histosplit ∣ radix * geo.groups * geo.items →
    (∃ c, radix * geo.groups * geo.items / geo.histosplit = 2 ^ c) → 0 < keys.length →
    geo.groups * geo.items ∣ keys.length → (∀ key ∈ keys, key < 2 ^ totalbits) → Loaded keys m →
    ClRadixSort geo ⟨keys.length, keys.length⟩ (IsSorted keys) m := by
  intro h
  have hsorts := h ⟨1, 1, 1⟩ [0] (fun _ ↦ 0) ⟨0, rfl⟩ ⟨0, rfl⟩ (by decide) ⟨5, rfl⟩ (by decide)
    (by decide) (by decide) ⟨fun i hi ↦ by simp, fun i hi ↦ (Nat.lt_one_iff.mp hi).symm⟩
  exact not_completes_of_one_part hsorts.2.2

/-! ### The service -/

/-- The globals of the library, with the size of the buffers for keys. -/
structure Service where
  sizes : Sizes
  capacity : Nat
  mem : Memory

/-- `_N`, `src/test_module/radix_sort/lib/cl_radix_sort_param.h:19`, the number of keys of the
client. -/
def maxKeys : Nat := 1 <<< 20

/-- The host's parameters, `src/test_module/radix_sort/lib/cl_radix_sort_param.h:10–12`. -/
def hostGeometry : Geometry := ⟨16, 64, 512⟩

/-- `cl_radix_resize`, `src/test_module/radix_sort/lib/cl_radix_sort.c:337–374`, or nothing when
an assertion fails. -/
def clRadixResize (geo : Geometry) (nn : Nat) (st : Service) : Option Service :=
  let nkeys := nn
  let reste := nkeys % (geo.groups * geo.items)
  if reste ≠ 0 then
    let rounded := nkeys - reste + geo.groups * geo.items
    -- the assertion compares with the count just set, and the write has to stay in the buffer
    if rounded ≤ nkeys ∧ nkeys + (geo.groups * geo.items - reste) ≤ st.capacity then
      some ⟨⟨nkeys, rounded⟩, st.capacity, fun
        | .cell .inKeys i =>
          if nkeys ≤ i ∧ i < nkeys + (geo.groups * geo.items - reste) then maxint - 1
          else st.mem (.cell .inKeys i)
        | l => st.mem l⟩
    else none
  else some { st with sizes := ⟨nkeys, nkeys⟩ }

/-- The conditions that `init_cl_radix_sort` checks,
`src/test_module/radix_sort/lib/cl_radix_sort.c:137–161`. -/
def Geometry.checked (geo : Geometry) (nkeys : Nat) : Bool :=
  decide (totalbits % bits = 0) && decide (nkeys % (geo.groups * geo.items) = 0) &&
    decide (geo.groups * geo.items * radix % geo.histosplit = 0) &&
    decide (2 ^ Nat.log2 geo.groups = geo.groups) && decide (2 ^ Nat.log2 geo.items = geo.items) &&
    decide (maxint ≠ 0)

/-- `clCreateBuffer`, `src/test_module/radix_sort/lib/cl_radix_sort.c:178–288`, rejects an empty
buffer. -/
def Geometry.created (geo : Geometry) (nkeys : Nat) : Bool :=
  decide (0 < nkeys) && decide (0 < radix * geo.groups * geo.items) && decide (0 < geo.histosplit)

/-- `init_cl_radix_sort`, `src/test_module/radix_sort/lib/cl_radix_sort.c:121–323`, or nothing
when an assertion fails. -/
def initClRadixSort (geo : Geometry) (hKeys : List Nat) (m : Memory) : Option Service :=
  let nkeys := hKeys.length
  if geo.checked nkeys && geo.created nkeys then
    clRadixResize geo nkeys ⟨⟨nkeys, nkeys⟩, nkeys, load hKeys m⟩
  else none

/-- `cl_radix_recup_gpu`, `src/test_module/radix_sort/lib/cl_radix_sort.c:572–640`. -/
def clRadixRecupGpu (s : Sizes) (m : Memory) : List Nat :=
  (List.range s.nkeys).map fun i ↦ m (.cell .inKeys i)

/-- `radix_launch` as its client wants it: no assertion fails, the keys are padded to the next
multiple of the number of items with values not below them, and those read back are the keys in
ascending order. -/
def Serves (geo : Geometry) (hKeys : List Nat) (m : Memory) : Prop :=
  ∃ st, initClRadixSort geo hKeys m = some st ∧
    IsLeast {k | geo.groups * geo.items ∣ k ∧ hKeys.length ≤ k} st.sizes.nkeysRounded ∧
    (∀ i, hKeys.length ≤ i → i < st.sizes.nkeysRounded →
      ∀ key ∈ hKeys, key ≤ st.mem (.cell .inKeys i)) ∧
    st.sizes.nkeys ≤ st.capacity ∧
    ClRadixSort geo st.sizes (fun m' ↦ (clRadixRecupGpu st.sizes m').Pairwise (· ≤ ·) ∧
      (clRadixRecupGpu st.sizes m').Perm hKeys) st.mem

private theorem clRadixResize_of_dvd {nn : Nat} (h : geo.groups * geo.items ∣ nn) (st : Service) :
    clRadixResize geo nn st = some { st with sizes := ⟨nn, nn⟩ } := by
  have hreste : nn % (geo.groups * geo.items) = 0 := Nat.mod_eq_zero_of_dvd h
  simp only [clRadixResize, hreste, ne_eq, not_true_eq_false, if_false]

/-- The count is set before the assertion compares with it: no other length passes. -/
theorem clRadixResize_of_not_dvd {nn : Nat} (hpos : 0 < geo.groups * geo.items)
    (h : ¬geo.groups * geo.items ∣ nn) (st : Service) : clRadixResize geo nn st = none := by
  have hreste : nn % (geo.groups * geo.items) ≠ 0 := fun h' ↦ h (Nat.dvd_of_mod_eq_zero h')
  have hlt := Nat.mod_lt nn hpos
  have hle := Nat.mod_le nn (geo.groups * geo.items)
  simp only [clRadixResize, if_pos hreste]
  apply if_neg
  omega

/-- The keys of the device are those of the input. -/
theorem IsSorted.perm (h : IsSorted keys m) :
    ((List.range keys.length).map fun i ↦ m (.cell .inKeys i)).Perm keys := by
  apply CountingSort.perm_of_getElem? _ h.onto
  · intro p hp
    obtain ⟨hlt, hkey⟩ := h.inKeys p hp
    rw [List.getElem?_map, List.getElem?_range hp, List.getElem?_eq_getElem hlt, ← hkey]
    rfl
  · rw [List.length_map, List.length_range]

/-- The keys of the device ascend. -/
theorem IsSorted.pairwise (h : IsSorted keys m) :
    ((List.range keys.length).map fun i ↦ m (.cell .inKeys i)).Pairwise (· ≤ ·) := by
  rw [List.pairwise_map]
  refine List.pairwise_lt_range.imp_of_mem ?_
  intro p q _ hq hpq
  exact h.ascending p q hpq (List.mem_range.mp hq)

/-- In 512 parts of 64 entries. -/
theorem hostGeometry_powers : Powers hostGeometry 5 8 :=
  ⟨⟨rfl, by decide⟩, rfl, by decide, by decide⟩

/-- Keys that fill the items exactly are loaded without padding. -/
theorem initClRadixSort_of_dvd {hKeys : List Nat} {e e' : Nat} (hgeo : Powers geo e e')
    (hgroups : 2 ^ Nat.log2 geo.groups = geo.groups) (hitems : 2 ^ Nat.log2 geo.items = geo.items)
    (hpos : 0 < hKeys.length) (hdvd : geo.groups * geo.items ∣ hKeys.length) :
    initClRadixSort geo hKeys m =
      some ⟨⟨hKeys.length, hKeys.length⟩, hKeys.length, load hKeys m⟩ := by
  have hmod : hKeys.length % (geo.groups * geo.items) = 0 := Nat.mod_eq_zero_of_dvd hdvd
  have hradix : 0 < radix := by decide
  have hsplit : geo.groups * geo.items * radix % geo.histosplit = 0 := by
    rw [Nat.mul_comm _ radix, hgeo.split.size]
    exact Nat.mul_mod_right ..
  have hchecked : (geo.checked hKeys.length && geo.created hKeys.length) = true := by
    simp only [Geometry.checked, Geometry.created, hmod, hsplit, hgroups, hitems, hpos,
      hgeo.split.pos, Nat.mul_pos (Nat.mul_pos hradix hgeo.groups) hgeo.items]
    decide
  rw [initClRadixSort, if_pos hchecked, clRadixResize_of_dvd hdvd]

/-- The service works exactly for multiples of the number of items. -/
theorem serves_iff {hKeys : List Nat} (hpos : 0 < hKeys.length)
    (hkeys : ∀ key ∈ hKeys, key < maxint) :
    Serves hostGeometry hKeys m ↔ hKeys.length % 1024 = 0 := by
  have hitems : hostGeometry.groups * hostGeometry.items = 1024 := rfl
  constructor
  · rintro ⟨st, hinit, _⟩
    rw [initClRadixSort] at hinit
    split at hinit
    · next hchecked =>
      simp only [Geometry.checked, Bool.and_eq_true, decide_eq_true_eq] at hchecked
      exact hchecked.1.1.1.1.1.2
    · cases hinit
  · intro hmod
    have hdvd : hostGeometry.groups * hostGeometry.items ∣ hKeys.length :=
      Nat.dvd_of_mod_eq_zero hmod
    have hinit := initClRadixSort_of_dvd (m := m) hostGeometry_powers rfl rfl hpos hdvd
    obtain ⟨size, hsize⟩ := hdvd
    refine ⟨_, hinit, ⟨⟨⟨size, hsize⟩, Nat.le_refl _⟩, fun k hk ↦ hk.2⟩, ?_, Nat.le_refl _, ?_⟩
    · intro i hi hi'
      exact absurd hi' (Nat.not_lt.mpr hi)
    · refine clRadixSort_of_powers hostGeometry_powers hsize ?_ (load_loaded _ _) ?_
      · intro key hkey
        exact (hkeys key hkey).trans (by decide)
      · exact fun m' hsorted ↦ ⟨hsorted.pairwise, hsorted.perm⟩

/-- 2048 keys out of order, each of the numbers below 1000 at least twice. -/
theorem serves_repeating :
    Serves hostGeometry ((List.range 2048).map fun i ↦ i * 397 % 1000) fun _ ↦ 0 := by
  apply (serves_iff ?_ ?_).mpr
  · rw [List.length_map, List.length_range]
  · rw [List.length_map, List.length_range]
    decide
  · intro key hkey
    obtain ⟨i, -, rfl⟩ := List.mem_map.mp hkey
    have hlt : i * 397 % 1000 < 1000 := Nat.mod_lt _ (by decide)
    exact hlt.trans (by decide)

/-- One key is not served. -/
theorem not_serves_one : ¬∀ (hKeys : List Nat) (m : Memory), 0 < hKeys.length →
    hKeys.length ≤ maxKeys → (∀ key ∈ hKeys, key < maxint) → Serves hostGeometry hKeys m := by
  intro h
  obtain ⟨st, hinit, _⟩ := h [0] (fun _ ↦ 0) (by decide) (by decide) (by decide)
  rw [initClRadixSort, if_neg (by decide)] at hinit
  cases hinit

end QHGPU.Radix
