import QHGPU.Library.OneShot
import QHGPU.Library.Schedules
import QHGPU.Services.Bfs

/-!
# Turns of the search

What the two kernels leave, in every order of their steps. The loops of the CPU are one of the
orders of a launch with a work-item for every node.
-/

namespace QHGPU.Bfs

open WorkItems (Prog Launch Stays Fine Runs load store)
open Classical

variable {g : Graph} {S r tid u v : Nat} {m m' : Memory}

/-- An edge leads to a node. -/
theorem Graph.Edge.target_lt (h : g.Edge u v) : v < g.noOfNodes := by
  obtain ⟨hu, i, hi, rfl⟩ := h
  rw [List.mem_range'_1] at hi
  have := g.range u hu
  exact g.target i (by omega)

/-! ### The first kernel -/

/-- What the items rely on: the nodes in the mask are visited and have cost `r`. -/
structure Ready (g : Graph) (S r : Nat) (m : Memory) : Prop where
  visited : ∀ u < S, u < g.noOfNodes → m (.mask u) ≠ 0 → m (.visited u) ≠ 0
  cost : ∀ u < S, u < g.noOfNodes → m (.mask u) ≠ 0 → m (.cost u) = r

/-- Some item reaches the node for the first time. -/
def Touched (g : Graph) (S : Nat) (m : Memory) (v : Nat) : Prop :=
  ∃ u < S, m (.mask u) ≠ 0 ∧ g.Edge u v ∧ m (.visited v) = 0

/-- The memory after the first kernel. -/
noncomputable def expanded (g : Graph) (S r : Nat) (m : Memory) : Memory
  | .mask v => if v < S ∧ v < g.noOfNodes then 0 else m (.mask v)
  | .updating v => if Touched g S m v then 1 else m (.updating v)
  | .cost v => if Touched g S m v then r + 1 else m (.cost v)
  | .visited v => m (.visited v)
  | .gOver => m .gOver

/-- The entries an item of the first kernel may access: of the masks only its own. -/
def expandAllowed (g : Graph) (tid : Nat) : Set Place :=
  {l | InBuffers g l ∧ ∀ u, l = .mask u → u = tid}

/-- The entries that it changes. -/
def expandGoal (g : Graph) (m : Memory) (tid : Nat) : Set Place :=
  {l | tid < g.noOfNodes ∧ m (.mask tid) ≠ 0 ∧ (l = .mask tid ∨
    ∃ v, g.Edge tid v ∧ m (.visited v) = 0 ∧ (l = .cost v ∨ l = .updating v))}

private theorem mask_unique {i j : Nat} {l : Place} (h : l ∈ ({.mask i} : Set Place))
    (h' : l ∈ expandAllowed g j) : i = j := h'.2 i h

/-- The edges up to those in `is` have been looked at. -/
structure Passed (g : Graph) (m : Memory) (tid : Nat) (is : List Nat) (seen : Set Place) :
    Prop where
  left : ∀ i ∈ is, i ∈ List.range' (g.nodes tid).starting (g.nodes tid).noOfEdges
  self : .mask tid ∈ seen
  stored : ∀ i ∈ List.range' (g.nodes tid).starting (g.nodes tid).noOfEdges, i ∉ is →
    m (.visited (g.edges i)) = 0 → .cost (g.edges i) ∈ seen ∧ .updating (g.edges i) ∈ seen

/-- One edge. -/
theorem Passed.step {i : Nat} {is : List Nat} {seen seen' : Set Place}
    (h : Passed g m tid (i :: is) seen) (hsub : seen ⊆ seen')
    (hi : m (.visited (g.edges i)) = 0 →
      .cost (g.edges i) ∈ seen' ∧ .updating (g.edges i) ∈ seen') : Passed g m tid is seen' := by
  refine ⟨fun j hj ↦ h.left j (List.mem_cons_of_mem i hj), hsub h.self, ?_⟩
  intro j hj hnot hzero
  by_cases heq : j = i
  · subst heq
    exact hi hzero
  · have hnot' : j ∉ i :: is := fun hmem ↦ (List.mem_cons.mp hmem).elim heq hnot
    exact (h.stored j hj hnot' hzero).imp (@hsub _) (@hsub _)

private theorem fine_expand (hready : Ready g S r m) (hS : tid < S) (hn : tid < g.noOfNodes) :
    Fine (· ∈ expandAllowed g tid) {.mask tid} m (expanded g S r m)
      (fun seen _ ↦ expandGoal g m tid ⊆ seen) ∅ (expand g tid) := by
  have hmask : .mask tid ∈ expandAllowed g tid := ⟨hn, fun u h ↦ (Place.mask.inj h).symm⟩
  rw [expand, WorkItems.load_bind]
  refine WorkItems.fine_get_mine hmask rfl (Set.notMem_empty _) ?_
  split
  · next hin =>
    have hnew : 0 = expanded g S r m (.mask tid) := by
      rw [expanded, if_pos ⟨hS, hn⟩]
    refine ⟨hmask, hnew, ?_⟩
    have hstart : Passed g m tid
        (List.range' (g.nodes tid).starting (g.nodes tid).noOfEdges) (insert (.mask tid) ∅) :=
      ⟨fun i hi ↦ hi, Set.mem_insert _ _, fun i hi hnot ↦ absurd hi hnot⟩
    refine (WorkItems.fine_forM (Passed g m tid) ?_ _ hstart).mono ?_
    · intro i is seen hpassed
      have hedge : g.Edge tid (g.edges i) := ⟨hn, i, hpassed.left i List.mem_cons_self, rfl⟩
      have hid := hedge.target_lt
      have hok (l : Place) (hl : InBuffers g l) (hne : ∀ u, l ≠ .mask u) :
          l ∈ expandAllowed g tid := ⟨hl, fun u heq ↦ absurd heq (hne u)⟩
      rw [WorkItems.load_bind]
      refine WorkItems.fine_get_same (hok _ hid (by simp)) rfl fun seen' hsub ↦ ?_
      split
      · next hzero =>
        have htouched : Touched g S m (g.edges i) := ⟨tid, hS, hin, hedge, hzero⟩
        have hself : ¬Touched g S m tid := by
          rintro ⟨_, _, _, _, hzero⟩
          exact hready.visited tid hS hn hin hzero
        have hcost : expanded g S r m (.cost tid) = m (.cost tid) := by
          rw [expanded, if_neg hself]
        refine WorkItems.fine_get_same (hok _ hn (by simp)) hcost fun seen'' hsub' ↦ ?_
        refine ⟨hok _ hid (by simp), ?_, hok _ hid (by simp), ?_, ?_⟩
        · rw [expanded, if_pos htouched, hready.cost tid hS hn hin]
        · rw [expanded, if_pos htouched]
        · refine hpassed.step ?_ fun _ ↦ ⟨?_, ?_⟩
          · exact (hsub.trans hsub').trans ((Set.subset_insert _ _).trans (Set.subset_insert _ _))
          · exact Set.mem_insert_of_mem _ (Set.mem_insert _ _)
          · exact Set.mem_insert _ _
      · next hseen => exact hpassed.step hsub fun hzero ↦ absurd hzero hseen
    · rintro seen _ hpassed l ⟨_, _, rfl | ⟨v, ⟨_, i, hi, rfl⟩, hzero, rfl | rfl⟩⟩
      · exact hpassed.self
      · exact (hpassed.stored i hi List.not_mem_nil hzero).1
      · exact (hpassed.stored i hi List.not_mem_nil hzero).2
  · next hout =>
    rintro l ⟨_, hin, _⟩
    exact absurd hin hout

private theorem fine_bfs1 (hready : Ready g S r m) (tid : Fin S) :
    Fine (· ∈ expandAllowed g tid) {.mask tid} m (expanded g S r m)
      (fun seen _ ↦ expandGoal g m tid ⊆ seen) ∅ (bfs1 g tid) := by
  rw [bfs1]
  split
  · next hn => exact fine_expand hready tid.isLt hn
  · next hout =>
    rintro l ⟨hn, _⟩
    exact absurd hn hout

/-- What changes is in the goal of some item. -/
theorem exists_expandGoal (l : Place) :
    m l = expanded g S r m l ∨ ∃ tid : Fin S, l ∈ expandGoal g m tid := by
  have htouched {v : Nat} (h : Touched g S m v) {l : Place} (hl : l = .cost v ∨ l = .updating v) :
      ∃ tid : Fin S, l ∈ expandGoal g m tid := by
    obtain ⟨u, hu, hmask, hedge, hzero⟩ := h
    exact ⟨⟨u, hu⟩, hedge.1, hmask, Or.inr ⟨v, hedge, hzero, hl⟩⟩
  cases l with
  | mask v =>
    rw [expanded]
    split
    · next hv =>
      by_cases hmask : m (.mask v) = 0
      · exact Or.inl hmask
      · exact Or.inr ⟨⟨v, hv.1⟩, hv.2, hmask, Or.inl rfl⟩
    · exact Or.inl rfl
  | updating v =>
    rw [expanded]
    split
    · next h => exact Or.inr (htouched h (Or.inr rfl))
    · exact Or.inl rfl
  | cost v =>
    rw [expanded]
    split
    · next h => exact Or.inr (htouched h (Or.inl rfl))
    · exact Or.inl rfl
  | visited v => exact Or.inl rfl
  | gOver => exact Or.inl rfl

private theorem launch_bfs1 (hready : Ready g S r m)
    (h : Launch workGroup (fun tid : Fin S ↦ bfs1 g tid) m m') : m' = expanded g S r m :=
  WorkItems.launch_oneShot (fun _ _ _ hl hl' ↦ Fin.ext (mask_unique hl hl'))
    (fine_bfs1 hready) exists_expandGoal h

private theorem stays_bfs1 (hready : Ready g S r m) :
    Stays workGroup (fun tid : Fin S ↦ bfs1 g tid) m (InBuffers g) :=
  WorkItems.stays_oneShot (fun _ _ hl ↦ hl.1) (fun _ _ _ hl hl' ↦ Fin.ext (mask_unique hl hl'))
    (fine_bfs1 hready)

/-! ### The second kernel -/

/-- Some item puts the node into the mask. -/
def Marked (g : Graph) (S : Nat) (m : Memory) (v : Nat) : Prop :=
  v < S ∧ v < g.noOfNodes ∧ m (.updating v) ≠ 0

/-- The memory after the second kernel. -/
noncomputable def marked (g : Graph) (S : Nat) (m : Memory) : Memory
  | .mask v => if Marked g S m v then 1 else m (.mask v)
  | .visited v => if Marked g S m v then 1 else m (.visited v)
  | .updating v => if Marked g S m v then 0 else m (.updating v)
  | .gOver => if ∃ v, Marked g S m v then 1 else m .gOver
  | .cost v => m (.cost v)

/-- The entries an item of the second kernel may access. -/
def markAllowed (g : Graph) (tid : Nat) : Set Place :=
  {l | tid < g.noOfNodes ∧ (l = .updating tid ∨ l = .mask tid ∨ l = .visited tid ∨ l = .gOver)}

/-- The entries that it changes. -/
def markGoal (g : Graph) (S : Nat) (m : Memory) (tid : Nat) : Set Place :=
  {l | Marked g S m tid ∧ (l = .updating tid ∨ l = .mask tid ∨ l = .visited tid ∨ l = .gOver)}

private theorem updating_unique {i j : Nat} {l : Place} (h : l ∈ ({.updating i} : Set Place))
    (h' : l ∈ markAllowed g j) : i = j := by
  obtain rfl : l = .updating i := h
  rcases h'.2 with h | h | h | h
  · exact Place.updating.inj h
  · cases h
  · cases h
  · cases h

private theorem fine_mark (hS : tid < S) (hn : tid < g.noOfNodes) :
    Fine (· ∈ markAllowed g tid) {.updating tid} m (marked g S m)
      (fun seen _ ↦ markGoal g S m tid ⊆ seen) ∅ (mark tid) := by
  have hupdating : .updating tid ∈ markAllowed g tid := ⟨hn, Or.inl rfl⟩
  rw [mark, WorkItems.load_bind]
  refine WorkItems.fine_get_mine hupdating rfl (Set.notMem_empty _) ?_
  split
  · next hin =>
    have hmarked : Marked g S m tid := ⟨hS, hn, hin⟩
    refine ⟨⟨hn, Or.inr (Or.inl rfl)⟩, ?_, ⟨hn, Or.inr (Or.inr (Or.inl rfl))⟩, ?_,
      ⟨hn, Or.inr (Or.inr (Or.inr rfl))⟩, ?_, hupdating, ?_, ?_⟩
    · rw [marked, if_pos hmarked]
    · rw [marked, if_pos hmarked]
    · rw [marked, if_pos ⟨tid, hmarked⟩]
    · rw [marked, if_pos hmarked]
    · rintro l ⟨_, rfl | rfl | rfl | rfl⟩ <;> simp
  · next hout =>
    rintro l ⟨hmarked, _⟩
    exact absurd hmarked.2.2 hout

private theorem fine_bfs2 (tid : Fin S) :
    Fine (· ∈ markAllowed g tid) {.updating tid} m (marked g S m)
      (fun seen _ ↦ markGoal g S m tid ⊆ seen) ∅ (bfs2 g tid) := by
  rw [bfs2]
  split
  · next hn => exact fine_mark tid.isLt hn
  · next hout =>
    rintro l ⟨hmarked, _⟩
    exact absurd hmarked.2.1 hout

private theorem exists_markGoal (l : Place) :
    m l = marked g S m l ∨ ∃ tid : Fin S, l ∈ markGoal g S m tid := by
  have hmarked {v : Nat} (h : Marked g S m v) {l : Place}
      (hl : l = .updating v ∨ l = .mask v ∨ l = .visited v ∨ l = .gOver) :
      ∃ tid : Fin S, l ∈ markGoal g S m tid := ⟨⟨v, h.1⟩, h, hl⟩
  cases l with
  | mask v =>
    rw [marked]
    split
    · next h => exact Or.inr (hmarked h (by simp))
    · exact Or.inl rfl
  | updating v =>
    rw [marked]
    split
    · next h => exact Or.inr (hmarked h (by simp))
    · exact Or.inl rfl
  | visited v =>
    rw [marked]
    split
    · next h => exact Or.inr (hmarked h (by simp))
    · exact Or.inl rfl
  | gOver =>
    rw [marked]
    split
    · next h => exact h.elim fun v hv ↦ Or.inr (hmarked hv (by simp))
    · exact Or.inl rfl
  | cost v => exact Or.inl rfl

private theorem launch_bfs2 (h : Launch workGroup (fun tid : Fin S ↦ bfs2 g tid) m m') :
    m' = marked g S m :=
  WorkItems.launch_oneShot (fun _ _ _ hl hl' ↦ Fin.ext (updating_unique hl hl')) fine_bfs2
    exists_markGoal h

private theorem stays_bfs2 : Stays workGroup (fun tid : Fin S ↦ bfs2 g tid) m (InBuffers g) := by
  refine WorkItems.stays_oneShot ?_ (fun _ _ _ hl hl' ↦ Fin.ext (updating_unique hl hl')) fine_bfs2
  rintro tid l ⟨hn, rfl | rfl | rfl | rfl⟩
  · exact hn
  · exact hn
  · exact hn
  · trivial

/-! ### Turns -/

private theorem free_bfs1 (g : Graph) (tid : Nat) : (bfs1 g tid).Free := by
  rw [bfs1]
  split
  · rw [expand, WorkItems.load_bind]
    intro inMask
    dsimp only
    split
    · refine WorkItems.free_forM (fun i ↦ ?_) _
      rw [WorkItems.load_bind]
      intro seen
      dsimp only
      split
      · exact fun _ ↦ trivial
      · trivial
    · trivial
  · trivial

private theorem free_bfs2 (g : Graph) (tid : Nat) : (bfs2 g tid).Free := by
  rw [bfs2]
  split
  · rw [mark, WorkItems.load_bind]
    intro updating
    dsimp only
    split
    · trivial
    · trivial
  · trivial

/-- The memory after a turn. -/
noncomputable def turned (g : Graph) (S r : Nat) (m : Memory) : Memory :=
  marked g S (expanded g S r (Function.update m .gOver 0))

/-- A turn has one result. -/
theorem turn_iff (hready : Ready g S r (Function.update m .gOver 0)) :
    Turn g S m m' ↔ m' = turned g S r m := by
  constructor
  · rintro ⟨m₁, h₁, h₂⟩
    obtain rfl := launch_bfs1 hready h₁
    exact launch_bfs2 h₂
  · rintro rfl
    obtain ⟨m₁, h₁⟩ := WorkItems.exists_launch workGroup (fun tid : Fin S ↦ free_bfs1 g tid) _
    obtain ⟨m₂, h₂⟩ := WorkItems.exists_launch workGroup (fun tid : Fin S ↦ free_bfs2 g tid) m₁
    obtain rfl := launch_bfs1 hready h₁
    obtain rfl := launch_bfs2 h₂
    exact ⟨_, h₁, h₂⟩

/-- From a memory that the items can rely on, both kernels end. -/
theorem turnRuns (hready : Ready g globalWorkSize r (Function.update m .gOver 0)) :
    TurnRuns g globalWorkSize m :=
  ⟨rfl, stays_bfs1 hready, fun _ _ ↦ stays_bfs2, _, (turn_iff hready).mpr rfl⟩

/-! ### The CPU -/

private theorem runs_visitNode (hn : tid < g.noOfNodes) (m : Memory) :
    Runs m (bfs1 g tid) (visitNode g m tid) (.ret ()) := by
  rw [bfs1, if_pos hn, expand, WorkItems.load_bind]
  apply Runs.get
  rw [visitNode]
  split
  · apply Runs.put
    refine WorkItems.runs_forM (fun i m ↦ ?_) _ _
    rw [WorkItems.load_bind]
    apply Runs.get
    rw [visitEdge]
    split
    · exact .get (.put (.put .refl))
    · exact .refl
  · exact .refl

/-- The second kernel of a node, as the loop of the CPU does it. -/
theorem runs_markNode (hn : tid < g.noOfNodes) (m : Memory) :
    Runs m (bfs2 g tid) (markNode m tid) (.ret ()) := by
  rw [bfs2, if_pos hn, mark, WorkItems.load_bind]
  apply Runs.get
  rw [markNode]
  split
  · exact .put (.put (.put (.put .refl)))
  · exact .refl

/-- The loops of the CPU are one of the orders with an item for every node. -/
theorem turn_cpuTurn (g : Graph) (m : Memory) : Turn g g.noOfNodes m (cpuTurn g m) :=
  ⟨_, WorkItems.launch_foldl workGroup (fun _ hn ↦ runs_visitNode hn) _,
    WorkItems.launch_foldl workGroup (fun _ hn ↦ runs_markNode hn) _⟩

end QHGPU.Bfs
