import QHGPU.Library.CountingSort
import QHGPU.Library.Phases
import QHGPU.Services.RadixSort

/-!
# Histograms

What the kernels `histogram` and `pastehistograms` leave on the device.
-/

namespace QHGPU.Radix

open WorkItems (Prog Launch Stays Plan load store barrier)

/-! ### From a plan to a launch -/

/-- What a launch does when its items keep to a plan in which every entry of a buffer has one
owner at most. -/
theorem KernelRuns.of_plan {V : Type} {r : NDRange} {prog : Fin r.globalSize → Prog Place V Unit}
    {ok : Place → Prop} {m : Place → V} {post : (Place → V) → Prop}
    (P : Plan (Fin r.globalSize) Nat Place V) (hgroup : P.group = r.group) (hsnap : P.snap 0 = m)
    (hcell : ∀ {t t' i j b k}, P.owns t i (.cell b k) → P.owns t' j (.cell b k) → i = j)
    (hkeeps : ∀ ig, P.Keeps ok ig (P.Done ig) 0 m (prog ig))
    (hpost : post (P.snap (P.last + 1))) : KernelRuns r prog ok m post := by
  subst hsnap
  have hlaunch {m' : Place → V} : Launch r.group prog (P.snap 0) m' ↔
      m' = P.snap (P.last + 1) := by
    rw [← hgroup]
    exact Plan.launch_iff hkeeps
  refine ⟨?_, ?_, ?_, ?_⟩
  · rw [← hgroup]
    exact Plan.stays hkeeps
  · intro acts acts' c₁ c₂ i j b k hrun hrun' hi hj
    rw [← hgroup] at hrun hrun'
    obtain ⟨_, hi⟩ := Plan.owns_of_target hkeeps hrun hi
    obtain ⟨_, hj⟩ := Plan.owns_of_target hkeeps hrun' hj
    exact hcell hi hj
  · exact ⟨_, hlaunch.mpr rfl⟩
  · intro m' hm'
    rw [hlaunch.mp hm']
    exact hpost

/-- A weaker postcondition. -/
theorem KernelRuns.mono {V : Type} {r : NDRange} {prog : Fin r.globalSize → Prog Place V Unit}
    {ok : Place → Prop} {m : Place → V} {post post' : (Place → V) → Prop}
    (h : KernelRuns r prog ok m post) (hpost : ∀ m', post m' → post' m') :
    KernelRuns r prog ok m post' :=
  ⟨h.stays, h.apart, h.ends, fun m' hm' ↦ hpost m' (h.post m' hm')⟩

/-- The launch of a command is that of its kernel, and the swap. -/
theorem KernelRuns.command {geo : Geometry} {n : Nat} {c : Command} {m : Memory}
    {post : Memory → Prop} (h : KernelRuns (c.range geo) (c.kernel geo n) (c.InBuffers geo n) m
      fun m' ↦ post (c.swap m')) : c.Runs geo n m post := ⟨h.stays, h.apart, h.ends, h.post⟩

/-- A launch whose items keep to a plan runs, and ends with its last snapshot. -/
theorem Command.Runs.of_plan {geo : Geometry} {n : Nat} {c : Command} {m : Memory}
    {post : Memory → Prop} (P : Plan (Fin (c.range geo).globalSize) Nat Place Nat)
    (hgroup : P.group = (c.range geo).group) (hsnap : P.snap 0 = m)
    (hcell : ∀ {t t' i j b k}, P.owns t i (.cell b k) → P.owns t' j (.cell b k) → i = j)
    (hkeeps : ∀ ig, P.Keeps (c.InBuffers geo n) ig (P.Done ig) 0 m (c.kernel geo n ig))
    (hpost : post (c.swap (P.snap (P.last + 1)))) : c.Runs geo n m post :=
  (KernelRuns.of_plan P hgroup hsnap hcell hkeeps hpost).command

/-! ### `histogram` -/

variable {geo : Geometry} {pass size : Nat} {m : Memory}

/-- The digit of the key at a position. -/
def digit (pass : Nat) (m : Memory) (i : Nat) : Nat := shortkey pass (m (.cell .inKeys i))

/-- The bits of a pass make a digit. -/
theorem shortkey_lt (pass key : Nat) : shortkey pass key < radix :=
  (Nat.and_le_right).trans_lt (by decide)

/-- The keys of a chunk with a digit. -/
def chunkCount (pass size : Nat) (m : Memory) (chunk r : Nat) : Nat :=
  Nat.count (fun j ↦ digit pass m (chunk * size + j) = r) size

/-- Row and column of an entry. -/
theorem entry_div {d r : Nat} (q : Nat) (hr : r < d) : (q * d + r) / d = q := by
  rw [Nat.mul_comm, Nat.mul_add_div (by omega), Nat.div_eq_of_lt hr, Nat.add_zero]

/-- The column of an entry. -/
theorem entry_mod {d r : Nat} (q : Nat) (hr : r < d) : (q * d + r) % d = r := by
  rw [Nat.mul_add_mod_self_right, Nat.mod_eq_of_lt hr]

/-- The entries of `k` rows. -/
theorem entry_lt {d r q k : Nat} (hq : q < k) (hr : r < d) : q * d + r < k * d := by
  have := Nat.mul_le_mul_right d hq
  rw [Nat.succ_mul] at this
  omega

/-- What an item of `histogram` and of `reorder` has for a digit in the local memory. -/
def localCell (items ig ir : Nat) : Place := .cache (ig / items) (ir * items + ig % items)

/-- Each item has its own cells in the local memory. -/
theorem localCell_inj {items i j ir jr : Nat} (hitems : 0 < items)
    (h : localCell items i ir = localCell items j jr) : i = j ∧ ir = jr := by
  rw [localCell, localCell, Place.cache.injEq] at h
  obtain ⟨hdiv, hcell⟩ := h
  have hmod := Nat.mod_lt i hitems
  have hmod' := Nat.mod_lt j hitems
  have hr := congrArg (· / items) hcell
  have hc := congrArg (· % items) hcell
  rw [entry_div _ hmod, entry_div _ hmod'] at hr
  rw [entry_mod _ hmod, entry_mod _ hmod'] at hc
  rw [← Nat.div_add_mod i items, ← Nat.div_add_mod j items, hdiv, hc]
  exact ⟨rfl, hr⟩

/-- Every entry of the local memories of the groups is that of an item. -/
theorem exists_localCell {groups items gr c : Nat} (hgr : gr < groups) (hc : c < radix * items) :
    ∃ ig < groups * items, ∃ ir < radix, .cache gr c = localCell items ig ir := by
  have hitems : 0 < items := Nat.pos_of_ne_zero fun h ↦ by simp [h] at hc
  have hmod := Nat.mod_lt c hitems
  refine ⟨gr * items + c % items, entry_lt hgr hmod, c / items,
    Nat.div_lt_of_lt_mul (Nat.mul_comm _ _ ▸ hc), ?_⟩
  rw [localCell, entry_div _ hmod, entry_mod _ hmod, Nat.div_add_mod']

/-- The index of the kernels in the histogram: a row for each digit, a column for each item. -/
theorem histograms_index {groups items : Nat} (ig : Fin (groups * items)) (ir : Nat) :
    ir * groups * items + items * NDRange.group ⟨groups * items, items⟩ ig +
      NDRange.localId ⟨groups * items, items⟩ ig = ir * (groups * items) + ig := by
  rw [Nat.add_assoc, NDRange.group, NDRange.localId, Nat.div_add_mod, Nat.mul_assoc]

/-- The entry of an item for a digit is in the histogram. -/
theorem histograms_lt {groups items ir : Nat} (ig : Fin (groups * items)) (hir : ir < radix) :
    ir * (groups * items) + ig < radix * groups * items := by
  rw [Nat.mul_assoc radix]
  exact entry_lt hir ig.isLt

/-- A launch with an item has items in each group. -/
theorem items_pos {groups items : Nat} (ig : Fin (groups * items)) : 0 < items :=
  Nat.pos_of_ne_zero fun h ↦ by
    have := ig.isLt
    simp [h] at this

/-- `n/groups/items`, the length of a chunk. -/
theorem chunk_eq {groups items : Nat} (ig : Fin (groups * items)) (size : Nat) :
    groups * items * size / (NDRange.mk (groups * items) items).numGroups / items = size := by
  have hpos : 0 < groups * items := by
    have := ig.isLt
    omega
  rw [NDRange.numGroups, Nat.mul_div_cancel _ (items_pos ig), Nat.div_div_eq_div_mul,
    Nat.mul_div_cancel_left _ hpos]

/-- What an item of `histogram` stores to. -/
def HistogramOwns (geo : Geometry) (ig : Nat) (l : Place) : Prop :=
  ∃ ir < radix, l = localCell geo.items ig ir ∨
    l = .cell .histograms (ir * (geo.groups * geo.items) + ig)

/-- The memory in the phases of `histogram`. -/
def histogramSnap (geo : Geometry) (pass size : Nat) (m : Memory) (t : Nat) : Memory
  | .cache gr c =>
    if gr < geo.groups ∧ c < radix * geo.items then
      if t = 0 then m (.cache gr c)
      else if t = 1 then 0
      else chunkCount pass size m (gr * geo.items + c % geo.items) (c / geo.items)
    else m (.cache gr c)
  | .cell .histograms k =>
    if 3 ≤ t ∧ k < radix * (geo.groups * geo.items) then
      chunkCount pass size m (k % (geo.groups * geo.items)) (k / (geo.groups * geo.items))
    else m (.cell .histograms k)
  | l => m l

variable {ig ir t : Nat}

private theorem histogramSnap_localCell (hig : ig < geo.groups * geo.items) (hir : ir < radix) :
    histogramSnap geo pass size m t (localCell geo.items ig ir) =
      if t = 0 then m (localCell geo.items ig ir) else if t = 1 then 0
      else chunkCount pass size m ig ir := by
  have hitems : 0 < geo.items := Nat.pos_of_ne_zero fun h ↦ by simp [h] at hig
  have hmod := Nat.mod_lt ig hitems
  have hdiv : ig / geo.items < geo.groups := Nat.div_lt_of_lt_mul (Nat.mul_comm _ _ ▸ hig)
  rw [localCell, histogramSnap, if_pos ⟨hdiv, entry_lt hir hmod⟩, entry_div _ hmod,
    entry_mod _ hmod, Nat.div_add_mod']

private theorem histogramSnap_histograms (hig : ig < geo.groups * geo.items) (hir : ir < radix) :
    histogramSnap geo pass size m t (.cell .histograms (ir * (geo.groups * geo.items) + ig)) =
      if 3 ≤ t then chunkCount pass size m ig ir
      else m (.cell .histograms (ir * (geo.groups * geo.items) + ig)) := by
  rw [histogramSnap, entry_div _ hig, entry_mod _ hig]
  simp only [entry_lt hir hig, and_true]

private theorem HistogramOwns.eq {i j : Nat} {l : Place} (hi : i < geo.groups * geo.items)
    (hj : j < geo.groups * geo.items) (h : HistogramOwns geo i l) (h' : HistogramOwns geo j l) :
    i = j := by
  have hitems : 0 < geo.items := Nat.pos_of_ne_zero fun h ↦ by simp [h] at hi
  obtain ⟨ir, _, rfl | rfl⟩ := h
  · obtain ⟨jr, _, heq | heq⟩ := h'
    · exact (localCell_inj hitems heq).1
    · cases heq
  · obtain ⟨jr, _, heq | heq⟩ := h'
    · cases heq
    · rw [Place.cell.injEq] at heq
      have hmod := congrArg (· % (geo.groups * geo.items)) heq.2
      rwa [entry_mod _ hi, entry_mod _ hj] at hmod

private theorem not_histogramOwns_inKeys {k : Nat} : ¬HistogramOwns geo ig (.cell .inKeys k) := by
  simp [HistogramOwns, localCell]

private theorem histogramSnap_succ {l : Place}
    (hnone : ∀ ig : Fin (geo.groups * geo.items), ¬HistogramOwns geo ig l) :
    histogramSnap geo pass size m (t + 1) l = histogramSnap geo pass size m t l := by
  cases l with
  | cache gr c =>
    rw [histogramSnap, histogramSnap]
    by_cases hin : gr < geo.groups ∧ c < radix * geo.items
    · obtain ⟨ig, hig, ir, hir, heq⟩ := exists_localCell hin.1 hin.2
      exact absurd ⟨ir, hir, Or.inl heq⟩ (hnone ⟨ig, hig⟩)
    · rw [if_neg hin, if_neg hin]
  | cell b k =>
    cases b with
    | histograms =>
      rw [histogramSnap, histogramSnap]
      by_cases hin : k < radix * (geo.groups * geo.items)
      · have hpos : 0 < geo.groups * geo.items := Nat.pos_of_ne_zero fun h ↦ by simp [h] at hin
        have heq : .cell .histograms k = Place.cell .histograms
            (k / (geo.groups * geo.items) * (geo.groups * geo.items) +
              k % (geo.groups * geo.items)) := by
          rw [Nat.div_add_mod']
        exact absurd ⟨_, Nat.div_lt_of_lt_mul (Nat.mul_comm _ _ ▸ hin), Or.inr heq⟩
          (hnone ⟨_, Nat.mod_lt k hpos⟩)
      · rw [if_neg fun h ↦ hin h.2, if_neg fun h ↦ hin h.2]
    | _ => rfl

/-- Who stores what when in `histogram`. -/
def histogramPlan (geo : Geometry) (pass size : Nat) (m : Memory) :
    Plan (Fin (geo.groups * geo.items)) Nat Place Nat :=
  .fixed (NDRange.group ⟨geo.groups * geo.items, geo.items⟩) (fun ig ↦ HistogramOwns geo ig)
    (histogramSnap geo pass size m) 3
    (fun {i j _} hi hj ↦ Fin.ext (HistogramOwns.eq i.isLt j.isLt hi hj))
    histogramSnap_succ

/-- The counters of an item after `k` keys of its chunk; the rest is as in the first phase. -/
structure Counted (geo : Geometry) (pass size : Nat) (m : Memory) (ig k : Nat) (m' : Memory) :
    Prop where
  counts : ∀ ir < radix, m' (localCell geo.items ig ir) =
    Nat.count (fun j ↦ digit pass m (ig * size + j) = ir) k
  rest : ∀ l, (∀ ir < radix, l ≠ localCell geo.items ig ir) →
    m' l = (histogramPlan geo pass size m).snap 1 l

/-- The next key is counted. -/
theorem Counted.keeps {ig : Fin (geo.groups * geo.items)} {k : Nat} {m' : Memory}
    (h : Counted geo pass size m ig k m') (hk : k < size) :
    (histogramPlan geo pass size m).Keeps
      ((Command.histogram pass).InBuffers geo (geo.groups * geo.items * size)) ig
      (fun t m'' _ ↦ t = 1 ∧ Counted geo pass size m ig (k + 1) m'') 1 m' (do
        let key ← load (.cell .inKeys (index (ig * size + k) (geo.groups * geo.items * size)))
        let count ← load (localCell geo.items ig (shortkey pass key))
        store (localCell geo.items ig (shortkey pass key)) (count + 1)) := by
  have hitems := items_pos ig
  have hdigit : shortkey pass (m' (.cell .inKeys (ig * size + k))) =
      digit pass m (ig * size + k) := by
    rw [h.rest _ fun _ _ ↦ by simp [localCell]]
    rfl
  have hlt : digit pass m (ig * size + k) < radix := shortkey_lt _ _
  have hok : (Command.histogram pass).InBuffers geo (geo.groups * geo.items * size)
      (localCell geo.items ig (digit pass m (ig * size + k))) :=
    entry_lt hlt (Nat.mod_lt _ hitems)
  rw [WorkItems.load_bind, Plan.keeps_get]
  refine ⟨entry_lt ig.isLt hk, Plan.sees_of_not_owns fun _ _ ↦ not_histogramOwns_inKeys, ?_⟩
  rw [index_eq, hdigit, WorkItems.load_bind, Plan.keeps_get]
  refine ⟨hok, Plan.sees_of_owns ⟨_, hlt, Or.inl rfl⟩, ?_⟩
  refine ⟨hok, ⟨_, hlt, Or.inl rfl⟩, rfl, ?_, ?_⟩
  · intro ir hir
    rw [Nat.count_succ]
    by_cases heq : digit pass m (ig * size + k) = ir
    · subst heq
      rw [Function.update_self, if_pos rfl, h.counts _ hlt]
    · rw [Function.update_of_ne fun h ↦ heq (localCell_inj hitems h).2.symm, if_neg heq,
        h.counts ir hir, Nat.add_zero]
  · intro l hl
    rw [Function.update_of_ne (hl _ hlt)]
    exact h.rest l hl

private theorem keeps_histogram (ig : Fin (geo.groups * geo.items)) :
    (histogramPlan geo pass size m).Keeps
      ((Command.histogram pass).InBuffers geo (geo.groups * geo.items * size)) ig
      ((histogramPlan geo pass size m).Done ig) 0 m
      (histogram pass (geo.groups * geo.items * size) ⟨geo.groups * geo.items, geo.items⟩ ig) := by
  have hitems := items_pos ig
  have hgroups : (NDRange.mk (geo.groups * geo.items) geo.items).numGroups = geo.groups :=
    Nat.mul_div_cancel _ hitems
  have hsize := chunk_eq ig size
  rw [hgroups] at hsize
  have hcell (ir : Nat) : Place.cache (NDRange.group ⟨geo.groups * geo.items, geo.items⟩ ig)
      (ir * geo.items + NDRange.localId ⟨geo.groups * geo.items, geo.items⟩ ig) =
        localCell geo.items ig ir := rfl
  have hok (ir : Nat) (hir : ir < radix) : (Command.histogram pass).InBuffers geo
      (geo.groups * geo.items * size) (localCell geo.items ig ir) :=
    entry_lt hir (Nat.mod_lt _ hitems)
  rw [histogram, hgroups, hsize]
  simp only [hcell]
  have hinj (j : Nat) (_ : j < radix) (k : Nat) (_ : k < radix)
      (h : localCell geo.items ig j = localCell geo.items ig k) : j = k :=
    (localCell_inj hitems h).2
  rw [Plan.keeps_bind]
  refine (Plan.keeps_fill (localCell geo.items ig) (fun _ ↦ 0) hinj ?_).mono ?_
  · intro ir hir m' _
    exact ⟨hok ir hir, ⟨ir, hir, Or.inl rfl⟩, rfl, rfl⟩
  rintro _ m₁ _ ⟨rfl, hzero, hrest⟩
  rw [WorkItems.barrier_bind, Plan.keeps_sync]
  have hcells (t : Nat) (ir : Nat) (hir : ir < radix) :
      (histogramPlan geo pass size m).snap t (localCell geo.items ig ir) = _ :=
    histogramSnap_localCell ig.isLt hir
  have hhistograms (t : Nat) (ir : Nat) (hir : ir < radix) :
      (histogramPlan geo pass size m).snap t
        (.cell .histograms (ir * (geo.groups * geo.items) + ig)) = _ :=
    histogramSnap_histograms ig.isLt hir
  refine ⟨Nat.zero_lt_succ 2, ?_, ?_⟩
  · rintro l ⟨ir, hir, rfl | rfl⟩
    · rw [hzero ir hir, hcells 1 ir hir]
      rfl
    · rw [hrest _ fun _ _ ↦ by simp [localCell], hhistograms 1 ir hir]
      rfl
  rw [Plan.keeps_bind]
  have hcounted : Counted geo pass size m ig 0 ((histogramPlan geo pass size m).snap 1) := by
    constructor
    · intro ir hir
      rw [hcells 1 ir hir]
      rfl
    · exact fun _ _ ↦ rfl
  refine (Plan.keeps_range (Counted geo pass size m ig) hcounted
    fun k hk m' h ↦ h.keeps hk).mono ?_
  rintro _ m₂ _ ⟨rfl, hcount, hrest⟩
  rw [WorkItems.barrier_bind, Plan.keeps_sync]
  refine ⟨Nat.one_lt_succ_succ 1, ?_, ?_⟩
  · rintro l ⟨ir, hir, rfl | rfl⟩
    · rw [hcount ir hir, hcells 2 ir hir]
      rfl
    · rw [hrest _ fun _ _ ↦ by simp [localCell], hhistograms 1 ir hir, hhistograms 2 ir hir]
      rfl
  rw [Plan.keeps_bind]
  refine (Plan.keeps_fill (fun ir ↦ .cell .histograms (ir * (geo.groups * geo.items) + ig))
    (fun ir ↦ chunkCount pass size m ig ir) ?_ ?_).mono ?_
  · intro j _ k _ h
    rw [Place.cell.injEq] at h
    have hdiv := congrArg (· / (geo.groups * geo.items)) h.2
    rwa [entry_div _ ig.isLt, entry_div _ ig.isLt] at hdiv
  · intro ir hir m' hrest
    have hval : m' (localCell geo.items ig ir) = chunkCount pass size m ig ir := by
      rw [hrest _ fun _ _ ↦ by simp [localCell], hcells 2 ir hir]
      rfl
    rw [histograms_index, WorkItems.load_bind, Plan.keeps_get, hval]
    exact ⟨hok ir hir, Plan.sees_of_owns ⟨ir, hir, Or.inl rfl⟩, histograms_lt ig hir,
      ⟨ir, hir, Or.inr rfl⟩, rfl, rfl⟩
  rintro _ m₃ _ ⟨rfl, hcopy, hrest⟩
  refine ⟨Nat.lt_succ_self 2, ?_, rfl, ?_⟩
  · rintro l ⟨ir, hir, rfl | rfl⟩
    · rw [hrest _ fun _ _ ↦ by simp [localCell], hcells 2 ir hir, hcells 3 ir hir]
      rfl
    · rw [hcopy ir hir, hhistograms 3 ir hir]
      rfl
  · rintro l ⟨ir, hir, rfl | rfl⟩
    · rw [hcells 3 ir hir, hcells 4 ir hir]
      rfl
    · rw [hhistograms 3 ir hir, hhistograms 4 ir hir]
      rfl

/-- `histogram` leaves the digit counts of the chunks, and the other buffers alone. -/
theorem runs_histogram {post : Memory → Prop} (hpost : ∀ m',
    (∀ k < radix * (geo.groups * geo.items), m' (.cell .histograms k) =
      chunkCount pass size m (k % (geo.groups * geo.items)) (k / (geo.groups * geo.items))) →
    (∀ b i, b ≠ .histograms → m' (.cell b i) = m (.cell b i)) → post m') :
    (Command.histogram pass).Runs geo (geo.groups * geo.items * size) m post := by
  have hstart : (histogramPlan geo pass size m).snap 0 = m := by
    funext l
    cases l with
    | cache gr c =>
      change histogramSnap geo pass size m 0 (.cache gr c) = _
      rw [histogramSnap, if_pos rfl, ite_self]
    | cell b k =>
      cases b with
      | histograms =>
        change histogramSnap geo pass size m 0 (.cell .histograms k) = _
        rw [histogramSnap, if_neg fun h ↦ absurd h.1 (by decide)]
      | _ => rfl
  refine .of_plan (histogramPlan geo pass size m) rfl hstart (fun hi hj ↦ ?_) keeps_histogram
    (hpost _ ?_ ?_)
  · exact (histogramPlan geo pass size m).eq_of_owns (t := 0) hi hj
  · intro k hk
    change histogramSnap geo pass size m 4 (.cell .histograms k) = _
    rw [histogramSnap, if_pos ⟨by decide, hk⟩]
  · intro b i hb
    cases b with
    | histograms => exact absurd rfl hb
    | _ => rfl

/-! ### `pastehistograms` -/

variable {V : Type} [AddCommMonoid V] {r : NDRange} {m : Place → V}

/-- What an item of `pastehistograms` stores to. -/
def PasteOwns (ig : Nat) (l : Place) : Prop :=
  l = .cell .histograms (2 * ig) ∨ l = .cell .histograms (2 * ig + 1)

/-- The memory in the phases of `pastehistograms`. -/
def pasteSnap (r : NDRange) (m : Place → V) (t : Nat) : Place → V
  | .cell .histograms k =>
    if 0 < t ∧ k < 2 * r.globalSize then
      m (.cell .histograms k) + m (.cell .globsum (k / (2 * r.localSize)))
    else m (.cell .histograms k)
  | l => m l

private theorem PasteOwns.eq {i j : Nat} {l : Place} (h : PasteOwns i l) (h' : PasteOwns j l) :
    i = j := by
  rcases h with rfl | rfl
  · rcases h' with h | h
    · simp only [Place.cell.injEq, true_and] at h
      omega
    · simp only [Place.cell.injEq, true_and] at h
      omega
  · rcases h' with h | h
    · simp only [Place.cell.injEq, true_and] at h
      omega
    · simp only [Place.cell.injEq, true_and] at h
      omega

private theorem pasteSnap_succ {l : Place} (hnone : ∀ ig : Fin r.globalSize, ¬PasteOwns ig l) :
    pasteSnap r m (t + 1) l = pasteSnap r m t l := by
  cases l with
  | cache gr c => rfl
  | cell b k =>
    cases b with
    | histograms =>
      rw [pasteSnap, pasteSnap]
      by_cases hin : k < 2 * r.globalSize
      · refine absurd ?_ (hnone ⟨k / 2, by omega⟩)
        rcases Nat.mod_two_eq_zero_or_one k with hmod | hmod
        · exact Or.inl (by congr 1; dsimp only; omega)
        · exact Or.inr (by congr 1; dsimp only; omega)
      · rw [if_neg fun h ↦ hin h.2, if_neg fun h ↦ hin h.2]
    | _ => rfl

/-- Who stores what when in `pastehistograms`. -/
def pastePlan (r : NDRange) (m : Place → V) : Plan (Fin r.globalSize) Nat Place V :=
  .fixed r.group (fun ig ↦ PasteOwns ig) (pasteSnap r m) 1 (fun hi hj ↦ Fin.ext (hi.eq hj))
    pasteSnap_succ

private theorem pasteSnap_owned (ig : Fin r.globalSize) (ht : 0 < t) (e : Nat) (he : e < 2) :
    pasteSnap r m t (.cell .histograms (2 * ig + e)) =
      m (.cell .histograms (2 * ig + e)) + m (.cell .globsum (r.group ig)) := by
  have := ig.isLt
  rw [pasteSnap, if_pos ⟨ht, by omega⟩, ← Nat.div_div_eq_div_mul, NDRange.group]
  congr 4
  omega

private theorem keeps_paste {ok : Place → Prop} (hsum : ∀ ig, ok (.cell .globsum (r.group ig)))
    (hhisto : ∀ k < 2 * r.globalSize, ok (.cell .histograms k)) (ig : Fin r.globalSize) :
    (pastePlan r m).Keeps ok ig ((pastePlan r m).Done ig) 0 m (pastehistograms r ig) := by
  have hlow := hhisto (2 * ig) (by have := ig.isLt; omega)
  have hhigh := hhisto (2 * ig + 1) (by have := ig.isLt; omega)
  have hown : (pastePlan r m).owns 0 ig (.cell .histograms (2 * ig)) := Or.inl rfl
  have hown' : (pastePlan r m).owns 0 ig (.cell .histograms (2 * ig + 1)) := Or.inr rfl
  rw [pastehistograms, WorkItems.load_bind, Plan.keeps_get]
  refine ⟨hsum ig, Plan.sees_of_not_owns fun _ _ h ↦ by simp [pastePlan, Plan.fixed, PasteOwns] at h,
    hlow, Plan.sees_of_owns hown, hlow, hown, hhigh, Plan.sees_of_owns hown', hhigh, hown',
    Nat.one_pos, ?_, rfl, ?_⟩
  · rintro l (rfl | rfl)
    · rw [Function.update_of_ne (by simp), Function.update_self]
      exact (pasteSnap_owned ig Nat.one_pos 0 (by decide)).symm
    · rw [Function.update_self, Function.update_of_ne (by simp)]
      exact (pasteSnap_owned ig Nat.one_pos 1 (by decide)).symm
  · rintro l (rfl | rfl)
    · exact (pasteSnap_owned ig Nat.one_pos 0 (by decide)).trans
        (pasteSnap_owned ig Nat.two_pos 0 (by decide)).symm
    · exact (pasteSnap_owned ig Nat.one_pos 1 (by decide)).trans
        (pasteSnap_owned ig Nat.two_pos 1 (by decide)).symm

/-- The histogram in `_HISTOSPLIT` parts of `2 * w` entries. -/
structure Split (geo : Geometry) (w : Nat) : Prop where
  size : radix * (geo.groups * geo.items) = geo.histosplit * (2 * w)
  pos : 0 < geo.histosplit

/-- The items of the launches of the scan. -/
theorem Split.half {w : Nat} (h : Split geo w) :
    radix * geo.groups * geo.items / 2 = geo.histosplit * w := by
  rw [Nat.mul_assoc, h.size, Nat.mul_left_comm, Nat.mul_div_cancel_left _ Nat.two_pos]

/-- The items of a group in these launches. -/
theorem Split.part {w : Nat} (h : Split geo w) :
    radix * geo.groups * geo.items / 2 / geo.histosplit = w := by
  rw [h.half, Nat.mul_div_cancel_left _ h.pos]

/-- `pastehistograms` adds to each part of the histogram its entry of `d_globsum`. -/
theorem runs_paste {n w : Nat} {post : (Place → V) → Prop} (h : Split geo w) (hpost : ∀ m',
    (∀ k < radix * (geo.groups * geo.items), m' (.cell .histograms k) =
      m (.cell .histograms k) + m (.cell .globsum (k / (2 * w)))) →
    (∀ b i, b ≠ .histograms → m' (.cell b i) = m (.cell b i)) → post m') :
    KernelRuns (Command.pasteHistogram.range geo) (pastehistograms _)
      (Command.pasteHistogram.InBuffers geo n) m post := by
  have hglobal : 2 * (Command.range geo .pasteHistogram).globalSize =
      radix * (geo.groups * geo.items) := by
    rw [h.size, Nat.mul_left_comm]
    exact congrArg (2 * ·) h.half
  refine .of_plan (pastePlan (Command.range geo .pasteHistogram) m) rfl ?_
    (fun hi hj ↦ Fin.ext (PasteOwns.eq hi hj)) (keeps_paste ?_ ?_) (hpost _ ?_ ?_)
  · funext l
    cases l with
    | cache gr c => rfl
    | cell b k =>
      cases b with
      | histograms =>
        change pasteSnap (Command.range geo .pasteHistogram) m 0 (.cell .histograms k) = _
        rw [pasteSnap, if_neg fun h ↦ absurd h.1 (by decide)]
      | _ => rfl
  · intro ig
    have hlt := ig.isLt
    change ig.val / (radix * geo.groups * geo.items / 2 / geo.histosplit) < geo.histosplit
    rw [h.part]
    exact Nat.div_lt_of_lt_mul (Nat.mul_comm _ _ ▸ hlt.trans_eq h.half)
  · intro k hk
    rw [hglobal, ← Nat.mul_assoc] at hk
    exact hk
  · intro k hk
    change pasteSnap (Command.range geo .pasteHistogram) m 2 (.cell .histograms k) = _
    rw [pasteSnap, if_pos ⟨Nat.two_pos, hglobal.symm ▸ hk⟩]
    change _ + m (.cell .globsum
      (k / (2 * (radix * geo.groups * geo.items / 2 / geo.histosplit)))) = _
    rw [h.part]
  · intro b i hb
    cases b with
    | histograms => exact absurd rfl hb
    | _ => rfl

end QHGPU.Radix
